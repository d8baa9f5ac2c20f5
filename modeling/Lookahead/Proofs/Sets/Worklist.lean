import Lookahead.Proofs.Sets.FollowSound
import Mathlib.Logic.Relation

/-!
# What a worklist finds, in any order

A worklist takes a name off its queue and puts the symbols of its set one after
another into the sets of its targets, which wait again if they grow.  In whatever
order the names wait at first, and targets and symbols come up, it stops, and leaves
the least sets that hold the seeds and include each other along the edges.
-/

namespace Lookahead

namespace SetFamily

def Linked (edges : List FollowEdge) (source target : Name) : Prop := ⟨source, target⟩ ∈ edges

/-- A symbol of a seed comes to a name along a path of edges. -/
def ComesFrom (edges : List FollowEdge) (seeds : SetFamily) (name : Name) (symbol : Symbol) : Prop :=
  ∃ source, Relation.ReflTransGen (Linked edges) source name ∧ symbol ∈ seeds.get source

/-- The least sets, by the names of the seeds, that hold the seeds and what comes along the edges. -/
structure IsLeastClosure (edges : List FollowEdge) (seeds closure : SetFamily) : Prop where
  names : ∀ name, closure.get? name ≠ none ↔ seeds.get? name ≠ none
  seeded : ∀ name, seeds.get name ⊆ closure.get name
  closed : ∀ edge ∈ edges, closure.get edge.source ⊆ closure.get edge.target
  least : ∀ sets : Name → SymbolSet, (∀ name, seeds.get name ⊆ sets name) →
    (∀ edge ∈ edges, sets edge.source ⊆ sets edge.target) → ∀ name, closure.get name ⊆ sets name
  comesFrom : ∀ name, ∀ symbol ∈ closure.get name, ComesFrom edges seeds name symbol

/-- Symbols put into a set one after another: what the set is then, and whether one was new. -/
def putAll : List Symbol → SymbolSet → SymbolSet × Bool
  | [], set => (set, false)
  | symbol :: rest, set =>
      let (larger, grew) := putAll rest (set.insert symbol)
      (larger, !decide (symbol ∈ set) || grew)

def put (family : SetFamily) (name : Name) (set : SymbolSet) : SetFamily :=
  ⟨family.entries.map fun entry => if entry.1 = name then (entry.1, set) else entry⟩

/-- Put symbols one after another into the sets of targets, which wait if their sets grow. -/
def deliver (symbols : List Symbol) : List Name → SetFamily × List Name → SetFamily × List Name
  | [], work => work
  | target :: rest, (family, queue) =>
      match family.get? target with
      | none => deliver symbols rest (family, queue)
      | some set =>
          let (larger, grew) := putAll symbols set
          deliver symbols rest (family.put target larger,
            if grew && !decide (target ∈ queue) then queue ++ [target] else queue)

/--
A worklist goes on: the first name that waits delivers the symbols of its set, in some order, to its
targets, in some order.
-/
inductive Advances (edges : List FollowEdge) :
    SetFamily × List Name → SetFamily × List Name → Prop where
  | deliver {family : SetFamily} {name : Name} {rest : List Name} (symbols : List Symbol)
      (targets : List Name) (isSet : ∀ symbol, symbol ∈ symbols ↔ symbol ∈ family.get name)
      (isTargets : ∀ target, target ∈ targets ↔ Linked edges name target) :
      Advances edges (family, name :: rest) (deliver symbols targets (family, rest))

inductive Runs (edges : List FollowEdge) :
    Nat → SetFamily × List Name → SetFamily × List Name → Prop where
  | refl (work : SetFamily × List Name) : Runs edges 0 work work
  | step {count : Nat} {before middle after : SetFamily × List Name}
      (first : Advances edges before middle) (rest : Runs edges count middle after) :
      Runs edges (count + 1) before after

/-! ## The order of symbols does not matter -/

section Order

variable {family : SetFamily} {name : Name} {set : SymbolSet}

theorem ofList_cons_subset_iff (head : Symbol) (rest : List Symbol) (set : SymbolSet) :
    SortedSet.ofList (head :: rest) ⊆ set ↔
      head ∈ set ∧ SortedSet.ofList rest ⊆ set.insert head := by
  constructor
  · intro within
    refine ⟨within head ((SortedSet.mem_ofList _ _).mpr List.mem_cons_self), fun member inside => ?_⟩
    have later := List.mem_cons_of_mem head ((SortedSet.mem_ofList _ _).mp inside)
    exact (SortedSet.mem_insert _ _ _).mpr (.inr (within member ((SortedSet.mem_ofList _ _).mpr later)))
  · rintro ⟨known, within⟩ member inside
    rcases List.mem_cons.mp ((SortedSet.mem_ofList _ _).mp inside) with here | later
    · exact here ▸ known
    · rcases (SortedSet.mem_insert _ _ _).mp
        (within member ((SortedSet.mem_ofList _ _).mpr later)) with here | old
      · exact here ▸ known
      · exact old

theorem putAll_eq (symbols : List Symbol) (set : SymbolSet) :
    putAll symbols set =
      (set ∪ .ofList symbols, !decide (SortedSet.ofList symbols ⊆ set)) := by
  induction symbols generalizing set with
  | nil =>
      have within : SortedSet.ofList ([] : List Symbol) ⊆ set := fun member inside =>
        absurd ((SortedSet.mem_ofList _ _).mp inside) List.not_mem_nil
      refine Prod.ext (SortedSet.ext fun member => ?_) ?_
      · simp [putAll]
      · simp [putAll, within]
  | cons head rest ih =>
      refine Prod.ext (SortedSet.ext fun member => ?_) ?_
      · simp only [putAll, ih, SortedSet.mem_union, SortedSet.mem_insert, SortedSet.mem_ofList,
          List.mem_cons]
        rw [or_assoc, or_left_comm]
      · simp only [putAll, ih, ofList_cons_subset_iff head rest set, Bool.decide_and, Bool.not_and]

theorem Uniform.put_union (uniform : family.Uniform) (found : family.get? name = some set)
    (symbols : SymbolSet) : family.put name (set ∪ symbols) = family.extend name symbols := by
  refine congrArg SetFamily.mk (List.map_congr_left fun entry inside => ?_)
  split
  · rename_i isName
    have isSet := uniform entry inside
    rw [isName, found] at isSet
    rw [Option.some.inj isSet]
  · rfl

theorem Uniform.extend_eq_self (uniform : family.Uniform) (found : family.get? name = some set)
    {symbols : SymbolSet} (within : symbols ⊆ set) : family.extend name symbols = family := by
  refine congrArg SetFamily.mk ((List.map_congr_left fun entry inside => ?_).trans (List.map_id _))
  split
  · rename_i isName
    have isSet := uniform entry inside
    rw [isName, found] at isSet
    rw [Option.some.injEq] at isSet
    refine Prod.ext rfl (SortedSet.ext fun member => ?_)
    rw [id, SortedSet.mem_union, ← isSet]
    exact or_iff_left_of_imp (within member)
  · rfl

/-- Delivering symbols in any order is carrying the set of them. -/
theorem Uniform.deliver_eq_carry (uniform : family.Uniform) (symbols : List Symbol)
    (targets queue : List Name) :
    deliver symbols targets (family, queue) = carry (.ofList symbols) targets (family, queue) := by
  induction targets generalizing family queue with
  | nil => rfl
  | cons target rest ih =>
      rw [deliver, SetFamily.carry]
      cases found : family.get? target with
      | none => exact ih uniform queue
      | some set =>
          simp only [putAll_eq, uniform.put_union found]
          rw [ih (uniform.extend target _)]
          by_cases within : SortedSet.ofList symbols ⊆ set
          · simp [within, uniform.extend_eq_self found within]
          · by_cases waits : target ∈ queue
            · simp [within, waits]
            · simp [within, waits]

theorem Uniform.carry (uniform : family.Uniform) (symbols : SymbolSet) (targets queue : List Name) :
    (SetFamily.carry symbols targets (family, queue)).1.Uniform := by
  induction targets generalizing family queue with
  | nil => exact uniform
  | cons target rest ih =>
      rw [SetFamily.carry]
      split
      · exact ih uniform queue
      · split
        · exact ih uniform queue
        · exact ih (uniform.extend target symbols) _

/-- Families whose names differ are uniform. -/
theorem uniform_of_nodup (distinct : (family.entries.map Prod.fst).Nodup) : family.Uniform := by
  obtain ⟨entries⟩ := family
  induction entries with
  | nil => exact List.forall_mem_nil _
  | cons head rest ih =>
      obtain ⟨fresh, others⟩ := List.nodup_cons.mp distinct
      intro entry inside
      rcases List.mem_cons.mp inside with here | later
      · subst here
        simp [get?]
      · have different : head.1 ≠ entry.1 := fun same =>
          fresh (same ▸ List.mem_map_of_mem later)
        have found := ih others entry later
        simpa [get?, different] using found

end Order

/-! ## What every turn keeps -/

variable {edges : List FollowEdge} {seeds : SetFamily}

structure Underway (edges : List FollowEdge) (seeds : SetFamily) (work : SetFamily × List Name) :
    Prop where
  uniform : work.1.Uniform
  names : ∀ name, work.1.get? name ≠ none ↔ seeds.get? name ≠ none
  seeded : ∀ name, seeds.get name ⊆ work.1.get name
  closed : ClosedExcept edges work.2 work.1
  comesFrom : work.1.AllMembers (ComesFrom edges seeds)

theorem ComesFrom.along {source target : Name} {symbol : Symbol}
    (comes : ComesFrom edges seeds source symbol) (linked : Linked edges source target) :
    ComesFrom edges seeds target symbol := by
  obtain ⟨root, path, inside⟩ := comes
  exact ⟨root, path.tail linked, inside⟩

/-- What comes along edges is in all sets that hold the seeds and include each other so. -/
theorem ComesFrom.mem_of_closed {name : Name} {symbol : Symbol}
    (comes : ComesFrom edges seeds name symbol) {sets : Name → SymbolSet}
    (seeded : ∀ name, seeds.get name ⊆ sets name)
    (closed : ∀ edge ∈ edges, sets edge.source ⊆ sets edge.target) : symbol ∈ sets name := by
  obtain ⟨root, path, inside⟩ := comes
  induction path with
  | refl => exact seeded root symbol inside
  | tail _ linked ih => exact closed _ linked symbol ih

namespace Advances

variable {before after : SetFamily × List Name}

/-- A turn carries the set of the first name to all its targets. -/
theorem exists_carry (advances : Advances edges before after) (uniform : before.1.Uniform) :
    ∃ family name rest targets, before = (family, name :: rest) ∧
      (∀ target, target ∈ targets ↔ Linked edges name target) ∧
      after = carry (family.get name) targets (family, rest) := by
  cases advances with
  | @deliver family name rest symbols targets isSet isTargets =>
      have same : SortedSet.ofList symbols = family.get name :=
        SortedSet.ext fun symbol => (SortedSet.mem_ofList _ _).trans (isSet symbol)
      refine ⟨family, name, rest, targets, rfl, isTargets, ?_⟩
      rw [Uniform.deliver_eq_carry uniform, same]

/-- Each turn takes a name off the queue, or makes the sets grow. -/
theorem room_add_length_lt (advances : Advances edges before after) (uniform : before.1.Uniform) :
    after.1.room + after.2.length < before.1.room + before.2.length := by
  obtain ⟨family, name, rest, targets, rfl, _, rfl⟩ := advances.exists_carry uniform
  have step := carry_room_add_length_le (family.get name) targets (family, rest)
    (get_subset_members family name)
  rw [List.length_cons]
  exact Nat.lt_succ_of_le step

theorem underway (advances : Advances edges before after)
    (known : ∀ edge ∈ edges, seeds.get? edge.target ≠ none) (going : Underway edges seeds before) :
    Underway edges seeds after := by
  obtain ⟨family, name, rest, targets, rfl, isTargets, rfl⟩ := advances.exists_carry going.uniform
  have carried := carried_carry (family.get name) targets (family, rest)
  constructor
  · exact going.uniform.carry _ _ _
  · exact fun other => (carried.defined_iff other).trans (going.names other)
  · exact fun other symbol inside => carried.mono other symbol (going.seeded other symbol inside)
  · refine going.closed.carry (fun edge inside => (going.names _).mpr (known edge inside)) ?_
    intro edge inside isName
    exact (isTargets edge.target).mpr (isName ▸ inside)
  · have comesFrom : (family, rest).1.AllMembers (ComesFrom edges seeds) := going.comesFrom
    refine comesFrom.carry ?_
    intro target isTarget symbol inside
    exact (going.comesFrom name symbol inside).along ((isTargets target).mp isTarget)

end Advances

/-- A worklist goes on as long as a name waits. -/
theorem exists_advances (edges : List FollowEdge) (family : SetFamily) (name : Name)
    (rest : List Name) : Advances edges (family, name :: rest)
      (deliver (family.get name).toList (targets edges name) (family, rest)) := by
  refine .deliver _ _ (fun _ => Iff.rfl) fun target => ?_
  simp only [targets, List.mem_map, List.mem_filter, decide_eq_true_eq]
  constructor
  · rintro ⟨edge, ⟨inside, rfl⟩, rfl⟩
    exact inside
  · exact fun linked => ⟨⟨name, target⟩, ⟨linked, rfl⟩, rfl⟩

namespace Runs

variable {count : Nat} {before after : SetFamily × List Name}

theorem underway (runs : Runs edges count before after)
    (known : ∀ edge ∈ edges, seeds.get? edge.target ≠ none) (going : Underway edges seeds before) :
    Underway edges seeds after := by
  induction runs with
  | refl => exact going
  | step first _ ih => exact ih (first.underway known going)

/-- A worklist does not go on for long. -/
theorem count_le (runs : Runs edges count before after)
    (known : ∀ edge ∈ edges, seeds.get? edge.target ≠ none) (going : Underway edges seeds before) :
    count ≤ before.1.room + before.2.length := by
  induction runs with
  | refl => exact Nat.zero_le _
  | step first _ ih =>
      exact Nat.succ_le_of_lt (Nat.lt_of_le_of_lt (ih (first.underway known going))
        (first.room_add_length_lt going.uniform))

end Runs

/-- Carrying along the edges until the queue is empty is one of the runs. -/
theorem exists_runs_propagate (edges : List FollowEdge) {family : SetFamily}
    (uniform : family.Uniform) (queue : List Name) :
    ∃ count, Runs edges count (family, queue) (propagate edges family queue, []) := by
  fun_induction propagate edges family queue with
  | case1 family => exact ⟨0, .refl _⟩
  | case2 family name rest work ih =>
      have isWork : work = deliver (family.get name).toList (targets edges name) (family, rest) := by
        rw [uniform.deliver_eq_carry]
        exact congrArg (carry · _ _) (SortedSet.ext fun symbol => (SortedSet.mem_ofList _ _).symm)
      obtain ⟨count, runs⟩ := ih (uniform.carry _ _ _)
      exact ⟨count + 1, .step (isWork ▸ exists_advances edges family name rest) runs⟩

/-- When no name waits, the sets are the least closure. -/
theorem Underway.isLeastClosure {family : SetFamily} (going : Underway edges seeds (family, [])) :
    IsLeastClosure edges seeds family where
  names := going.names
  seeded := going.seeded
  closed := fun edge inside =>
    (going.closed edge inside).resolve_left List.not_mem_nil
  least := fun _ seeded closed name symbol inside =>
    (going.comesFrom name symbol inside).mem_of_closed seeded closed
  comesFrom := going.comesFrom

/--
Let the edges lead between names that have a set, and let all names wait at first, in any order.
Then the worklist stops with the least closure of the seeds along the edges; and so it does in few
turns however targets and symbols come up in each of them.
-/
theorem worklist_finds_leastClosure (known : ∀ edge ∈ edges,
      seeds.get? edge.source ≠ none ∧ seeds.get? edge.target ≠ none)
    {queue : List Name} (distinct : queue.Nodup) (all : queue.Perm (seeds.entries.map Prod.fst)) :
    IsLeastClosure edges seeds (propagate edges seeds queue) ∧
      (∃ count, Runs edges count (seeds, queue) (propagate edges seeds queue, [])) ∧
      ∀ count family waiting, Runs edges count (seeds, queue) (family, waiting) →
        count ≤ seeds.room + queue.length ∧
          ((∃ next, Advances edges (family, waiting) next) ∨
            waiting = [] ∧ IsLeastClosure edges seeds family) := by
  have uniform : seeds.Uniform := uniform_of_nodup (all.nodup_iff.mp distinct)
  have targetKnown : ∀ edge ∈ edges, seeds.get? edge.target ≠ none :=
    fun edge inside => (known edge inside).2
  have begins : Underway edges seeds (seeds, queue) := by
    refine ⟨uniform, fun _ => Iff.rfl, fun _ _ inside => inside, fun edge inside => .inl ?_,
      fun name symbol inside => ⟨name, .refl, inside⟩⟩
    obtain ⟨set, found⟩ := Option.ne_none_iff_exists'.mp (known edge inside).1
    obtain ⟨entry, isEntry, _⟩ := Option.map_eq_some_iff.mp found
    have isSource : entry.1 = edge.source := by simpa using List.find?_some isEntry
    exact all.mem_iff.mpr (isSource ▸ List.mem_map_of_mem (List.mem_of_find?_eq_some isEntry))
  obtain ⟨last, isRun⟩ := exists_runs_propagate edges uniform queue
  refine ⟨(isRun.underway targetKnown begins).isLeastClosure, ⟨last, isRun⟩, ?_⟩
  intro count family waiting runs
  refine ⟨runs.count_le targetKnown begins, ?_⟩
  cases waiting with
  | nil => exact .inr ⟨rfl, (runs.underway targetKnown begins).isLeastClosure⟩
  | cons name rest => exact .inl ⟨_, exists_advances edges family name rest⟩

def ring : SetFamily :=
  ⟨[("A", .singleton (.terminal "a")), ("B", ∅), ("C", .singleton (.terminal "c"))]⟩

def ringEdges : List FollowEdge := [⟨"A", "B"⟩, ⟨"B", "C"⟩, ⟨"C", "A"⟩, ⟨"A", "C"⟩]

theorem worklist_finds_leastClosure_ring :
    IsLeastClosure ringEdges ring (propagate ringEdges ring ["C", "A", "B"]) ∧
      (∃ count, Runs ringEdges count (ring, ["C", "A", "B"])
        (propagate ringEdges ring ["C", "A", "B"], [])) ∧
      ∀ count family waiting, Runs ringEdges count (ring, ["C", "A", "B"]) (family, waiting) →
        count ≤ 7 ∧ ((∃ next, Advances ringEdges (family, waiting) next) ∨
          waiting = [] ∧ IsLeastClosure ringEdges ring family) :=
  worklist_finds_leastClosure (by decide) (by decide) (by decide)

end SetFamily

end Lookahead
