import Lookahead.Proofs.LR0.Edges
import Lookahead.Proofs.Parse.Runs

/-!
# Constructing the automaton

The automaton can be constructed state by state: a queue holds the numbers of the states
that are still to be expanded, and each symbol behind a dot leads to a state that is there
already or to one that joins the others and the queue.  The construction ends, with the
states and the transitions of the automaton, each in its place.
-/

namespace Lookahead.LR0

/-- An automaton under construction, with the numbers of the states to be expanded in a queue. -/
structure Construction where
  states : List ItemSet
  edges : List (Nat × Symbol × Nat)
  queue : List Nat

namespace Construction

/-- Record where a symbol leads from a state: a state that is new gets the next number and is queued. -/
def enter (source : Nat) (work : Construction) (found : Symbol × ItemSet) : Construction :=
  match work.states.findIdx? fun other => decide (other = found.2) with
  | some number => { work with edges := work.edges ++ [(source, found.1, number)] }
  | none =>
      ⟨work.states ++ [found.2], work.edges ++ [(source, found.1, work.states.length)],
        work.queue ++ [work.states.length]⟩

def leads (grammar : Grammar) (state : ItemSet) : List (Symbol × ItemSet) :=
  (nextSymbols grammar state).toList.map fun symbol => (symbol, target grammar state symbol)

/-- Expand the first state in the queue.  The result is none for a number that no state has. -/
def step (grammar : Grammar) (work : Construction) :
    Step Construction (Option (List ItemSet × List (Nat × Symbol × Nat))) :=
  match work.queue with
  | [] => .halt (some (work.states, work.edges))
  | source :: rest =>
      match work.states[source]? with
      | none => .halt none
      | some state =>
          .next ((leads grammar state).foldl (enter source) ⟨work.states, work.edges, rest⟩)

def start (grammar : Grammar) : Construction := ⟨[initialState grammar], [], [0]⟩

variable {grammar : Grammar}

def numbered (source : Nat) (all : List ItemSet) (found : List (Symbol × ItemSet)) :
    List (Nat × Symbol × Nat) :=
  found.filterMap fun entry =>
    (all.findIdx? fun other => decide (other = entry.2)).map fun number => (source, entry.1, number)

theorem numbered_leads (source : Nat) (all : List ItemSet) (state : ItemSet) :
    numbered source all (leads grammar state) =
      (Automaton.transitionsOf grammar all state).map fun entry => (source, entry.1, entry.2) := by
  rw [numbered, leads, List.filterMap_map, Automaton.transitionsOf, List.map_filterMap]
  refine List.filterMap_congr fun symbol _ => ?_
  simp [Function.comp_def]

theorem numbered_cons {source number : Nat} {all : List ItemSet} {head : Symbol × ItemSet}
    (known : all.findIdx? (fun other => decide (other = head.2)) = some number)
    (rest : List (Symbol × ItemSet)) :
    numbered source all (head :: rest) = (source, head.1, number) :: numbered source all rest := by
  rw [numbered, List.filterMap_cons, known]
  rfl

/-- Entering one state after the other adds those that are new, in order, and all transitions. -/
theorem foldl_enter (source : Nat) (found : List (Symbol × ItemSet)) (work : Construction) :
    found.foldl (enter source) work =
      ⟨work.states ++ Exploration.fresh work.states (found.map Prod.snd),
        work.edges ++ numbered source
          (work.states ++ Exploration.fresh work.states (found.map Prod.snd)) found,
        work.queue ++ List.range' work.states.length
          (Exploration.fresh work.states (found.map Prod.snd)).length⟩ := by
  induction found generalizing work with
  | nil => simp [Exploration.fresh, numbered]
  | cons head rest ih =>
      rw [List.foldl_cons, ih, List.map_cons, Exploration.fresh, enter]
      cases known : work.states.findIdx? fun other => decide (other = head.2) with
      | some number =>
          obtain ⟨inRange, same, _⟩ := List.findIdx?_eq_some_iff_getElem.mp known
          have old : head.2 ∈ work.states := of_decide_eq_true same ▸ List.getElem_mem inRange
          rw [if_pos old, numbered_cons (by rw [List.findIdx?_append, known, Option.some_or])]
          simp only [List.append_assoc, List.singleton_append]
      | none =>
          have new : head.2 ∉ work.states := fun old =>
            absurd (List.findIdx?_eq_none_iff.mp known _ old) (by simp)
          have same : Exploration.fresh (work.states ++ [head.2]) (rest.map Prod.snd) =
              Exploration.fresh (head.2 :: work.states) (rest.map Prod.snd) :=
            Exploration.fresh_congr (fun state => by simp [or_comm]) _
          have last : (work.states ++ head.2 :: Exploration.fresh (head.2 :: work.states)
              (rest.map Prod.snd)).findIdx? (fun other => decide (other = head.2)) =
              some work.states.length := by
            simp [List.findIdx?_append, known, List.findIdx?_cons]
          rw [if_neg new, numbered_cons last]
          simp only [same, List.append_assoc, List.singleton_append, List.length_append,
            List.length_cons, List.length_nil, List.range'_succ]

/-- Transitions stay as they are when states join those to which all of them lead. -/
theorem transitionsOf_append {all : List ItemSet} {state : ItemSet}
    (expanded : ∀ successor ∈ successors grammar state, successor ∈ all) (more : List ItemSet) :
    Automaton.transitionsOf grammar (all ++ more) state = Automaton.transitionsOf grammar all state := by
  refine List.filterMap_congr fun symbol isNext => ?_
  have inside := expanded _ (List.mem_map_of_mem isNext)
  cases known : all.findIdx? fun other => decide (other = target grammar state symbol) with
  | some number => simp only [List.findIdx?_append, known, Option.some_or]
  | none => exact absurd (List.findIdx?_eq_none_iff.mp known _ inside) (by simp)

theorem edges_append_singleton (rows : List (List (Symbol × Nat))) (row : List (Symbol × Nat)) :
    (Automaton.mk [] (rows ++ [row])).edges =
      (Automaton.mk [] rows).edges ++ row.map fun entry => (rows.length, entry.1, entry.2) := by
  simp [Automaton.edges, List.zipIdx_append]

/-- The construction with some states expanded, and the others in the queue. -/
def midway (grammar : Grammar) (done pending : List ItemSet) : Construction :=
  ⟨done ++ pending,
    (Automaton.mk [] (done.map (Automaton.transitionsOf grammar (done ++ pending)))).edges,
    List.range' done.length pending.length⟩

/-- Expanding a state takes the construction on to the next, with the new states at the end. -/
theorem step_midway {done rest : List ItemSet} {state : ItemSet}
    (expanded : ∀ node ∈ done, ∀ successor ∈ successors grammar node,
      successor ∈ done ++ state :: rest) :
    step grammar (midway grammar done (state :: rest)) =
      .next (midway grammar (done ++ [state])
        (rest ++ Exploration.fresh (done ++ state :: rest) (successors grammar state))) := by
  have isNext : (done ++ state :: rest)[done.length]? = some state := by simp
  have isSuccessors : (leads grammar state).map Prod.snd = successors grammar state := by
    rw [leads, List.map_map]
    rfl
  simp only [step, midway, List.length_cons, List.range'_succ, isNext, foldl_enter, isSuccessors,
    numbered_leads]
  generalize Exploration.fresh (done ++ state :: rest) (successors grammar state) = new
  have known : done ++ [state] ++ (rest ++ new) = done ++ state :: rest ++ new := by simp
  have kept : done.map (Automaton.transitionsOf grammar (done ++ state :: rest ++ new)) =
      done.map (Automaton.transitionsOf grammar (done ++ state :: rest)) :=
    List.map_congr_left fun node inside => transitionsOf_append (expanded node inside) new
  have queued : List.range' (done.length + 1) rest.length ++
      List.range' (done ++ state :: rest).length new.length =
      List.range' (done ++ [state]).length (rest ++ new).length := by
    have last : (done ++ state :: rest).length = done.length + 1 + rest.length := by
      rw [List.length_append, List.length_cons]
      omega
    rw [last, List.range'_append_1, List.length_append, List.length_append, List.length_singleton]
  rw [known, List.map_append, kept, List.map_singleton, edges_append_singleton, List.length_map,
    queued]

/-- The construction goes the way of the walk, whatever is done already. -/
theorem halts_midway {P : ItemSet → Prop} {bound : Nat} {finite : AtMost bound P}
    {closed : ∀ node, P node → ∀ successor ∈ successors grammar node, P successor}
    (done pending : List ItemSet) (nodup : (done ++ pending).Nodup)
    (within : ∀ node ∈ done ++ pending, P node)
    (expanded : ∀ node ∈ done, ∀ successor ∈ successors grammar node, successor ∈ done ++ pending) :
    Machine.Halts (step grammar) (midway grammar done pending)
      (some (Exploration.walk (successors grammar) finite closed done pending nodup within,
        (midway grammar (Exploration.walk (successors grammar) finite closed done pending nodup within)
          []).edges)) := by
  fun_induction Exploration.walk (successors grammar) finite closed done pending nodup within with
  | case1 done =>
      refine .halt ?_
      simp [step, midway]
  | case2 done node rest nodup within _ _ ih =>
      refine .next (step_midway expanded) (ih ?_)
      intro other inside successor follows
      by_cases old : successor ∈ done ++ node :: rest
      · have grown := List.mem_append_left
          (Exploration.fresh (done ++ node :: rest) (successors grammar node)) old
        simpa using grown
      · rcases List.mem_append.mp inside with before | here
        · exact absurd (expanded other before successor follows) old
        · rw [List.mem_singleton.mp here] at follows
          have new := (Exploration.mem_fresh _ _ successor).mpr ⟨follows, old⟩
          exact List.mem_append_right _ (List.mem_append_right rest new)

/-- The construction ends with the automaton, and never meets a number that no state has. -/
theorem halts (grammar : Grammar) : Machine.Halts (step grammar) (start grammar)
    (some ((Automaton.ofGrammar grammar).states, (Automaton.ofGrammar grammar).edges)) := by
  have first : Exploration.fresh [] [initialState grammar] = [initialState grammar] := by
    simp [Exploration.fresh]
  have isStart : start grammar =
      midway grammar [] (Exploration.fresh [] [initialState grammar]) := by
    rw [first]
    rfl
  have isEdges : (midway grammar (LR0.states grammar) []).edges =
      (Automaton.ofGrammar grammar).edges := by
    rw [midway, List.append_nil]
    rfl
  rw [isStart, ← isEdges]
  exact halts_midway [] _ _ _ (List.forall_mem_nil _)

end Construction

end Lookahead.LR0
