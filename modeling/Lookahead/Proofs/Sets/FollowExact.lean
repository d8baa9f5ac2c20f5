import Lookahead.Proofs.Grammar.Built
import Lookahead.Proofs.Sets.FollowSound
import Lookahead.Proofs.Sets.Followed

/-!
# FOLLOW sets are exact

FOLLOW of a nonterminal holds the terminals that stand right behind it in what any
nonterminal derives, the end marker where the start symbol derives a sequence that
ends in it, and nothing else.  The worklist finds these sets whatever the order in
which the names wait at first and the edges are gone along.
-/

namespace Lookahead

namespace Grammar

/-- A set is FOLLOW of a nonterminal: what can stand right behind it in derived sequences. -/
structure IsFollow (grammar : Grammar) (name : Name) (set : SymbolSet) : Prop where
  terminal : ∀ terminal, .terminal terminal ∈ set ↔
    ∃ root ∈ grammar.nonterminals, ∃ before after, grammar.Derives [.nonterminal root]
      (before ++ .nonterminal name :: .terminal terminal :: after)
  endMarker : .endMarker ∈ set ↔
    ∃ before, grammar.Derives [.nonterminal grammar.start] (before ++ [.nonterminal name])
  only : ∀ symbol ∈ set, symbol.isInput = true

/-- An order in which the worklist can go: of the names that wait at first, and of the edges. -/
structure FollowOrder (grammar : Grammar) (first : FirstSets) where
  queue : List Name
  edges : List FollowEdge
  queue_perm : queue.Perm grammar.followNames.toList
  mem_edges_iff : ∀ edge, edge ∈ edges ↔ edge ∈ grammar.followEdges first

def FollowOrder.ofDefinition (grammar : Grammar) (first : FirstSets) :
    grammar.FollowOrder first where
  queue := grammar.followNames.toList
  edges := grammar.followEdges first
  queue_perm := .refl _
  mem_edges_iff := fun _ => Iff.rfl

def FollowOrder.reverse {grammar : Grammar} {first : FirstSets} (order : grammar.FollowOrder first) :
    grammar.FollowOrder first where
  queue := order.queue.reverse
  edges := order.edges.reverse
  queue_perm := (List.reverse_perm order.queue).trans order.queue_perm
  mem_edges_iff := fun edge => List.mem_reverse.trans (order.mem_edges_iff edge)

def followSetsIn {grammar : Grammar} {first : FirstSets} (order : grammar.FollowOrder first) :
    FollowSets :=
  ⟨(grammar.followSeeds first).propagate order.edges order.queue⟩

theorem followSetsIn_ofDefinition (grammar : Grammar) (first : FirstSets) :
    followSetsIn (.ofDefinition grammar first) = grammar.followSets first := rfl

variable {grammar : Grammar} {name : Name} {first second : SymbolSet}

theorem isFollow_of_mem_iff (members : ∀ symbol, symbol ∈ first ↔ grammar.Follows name symbol) :
    grammar.IsFollow name first where
  terminal := fun _ => (members _).trans follows_terminal_iff
  endMarker := (members _).trans follows_endMarker_iff
  only := fun symbol inside => ((members symbol).mp inside).isInput

namespace IsFollow

theorem mem_iff (isFollow : grammar.IsFollow name first) (symbol : Symbol) :
    symbol ∈ first ↔ grammar.Follows name symbol := by
  cases symbol with
  | terminal terminal => exact (isFollow.terminal terminal).trans follows_terminal_iff.symm
  | endMarker => exact isFollow.endMarker.trans follows_endMarker_iff.symm
  | nonterminal other =>
      constructor
      · intro inside
        cases isFollow.only _ inside
      · intro follows
        cases follows.isInput
  | epsilon =>
      constructor
      · intro inside
        cases isFollow.only _ inside
      · intro follows
        cases follows.isInput

/-- There is one FOLLOW set of a nonterminal. -/
theorem unique (one : grammar.IsFollow name first) (another : grammar.IsFollow name second) :
    first = second := by
  apply SortedSet.ext
  intro symbol
  rw [one.mem_iff, another.mem_iff]

end IsFollow

/-- Sets that are closed hold whatever follows. -/
theorem SetsClosed.mem_follow_of_follows {firstSets : FirstSets} {follow : FollowSets}
    (closed : grammar.SetsClosed firstSets follow) {symbol : Symbol}
    (follows : grammar.Follows name symbol) : symbol ∈ follow.get name := by
  cases follows with
  | endMarker before chain =>
      have followed := closed.followed_of_derives chain.with_endMarker
      rw [List.append_assoc] at followed
      exact followed.mem_follow rfl
  | @terminal root _ before after _ chain =>
      exact (closed.followed_of_followed (followed_singleton root) chain).mem_follow rfl

/-- Each nonterminal gets its FOLLOW set, in whatever order the worklist goes. -/
theorem exists_isFollow (wellFormed : grammar.WellFormed)
    (order : grammar.FollowOrder grammar.firstSets) (known : name ∈ grammar.nonterminals) :
    ∃ set, (followSetsIn order).get? name = some set ∧ grammar.IsFollow name set := by
  have waits : name ∈ grammar.followNames := by simp [followNames, known]
  have defined : (followSetsIn order).get? name ≠ none :=
    (SetFamily.get?_propagate_ne_none_iff _ _ _ name).mpr (get?_followSeeds_ne_none _ waits)
  obtain ⟨set, found⟩ := Option.ne_none_iff_exists'.mp defined
  have same : (followSetsIn order).get name = set := SetFamily.get_eq_of_get? found
  have closed : grammar.SetsClosed grammar.firstSets (followSetsIn order) :=
    ⟨firstClosed_firstComputation wellFormed, followClosed_propagate wellFormed _
      order.mem_edges_iff fun _ inside => order.queue_perm.mem_iff.mpr inside⟩
  refine ⟨set, found, isFollow_of_mem_iff fun symbol => ?_⟩
  rw [← same]
  constructor
  · intro inside
    exact follows_of_mem_propagate wellFormed (fun edge => (order.mem_edges_iff edge).mp)
      order.queue inside
  · exact closed.mem_follow_of_follows

/-- What is in a FOLLOW set is what follows its nonterminal. -/
theorem mem_follow_iff (wellFormed : grammar.WellFormed) {symbol : Symbol} :
    symbol ∈ grammar.follow.get name ↔ grammar.Follows name symbol :=
  ⟨follows_of_mem_followSetsFrom wellFormed _, (setsClosed wellFormed).mem_follow_of_follows⟩

/-- An input symbol stands right behind a nonterminal in what the start symbol derives. -/
def FollowsFromStart (grammar : Grammar) (name : Name) (symbol : Symbol) : Prop :=
  symbol.isInput = true ∧ ∃ before after, grammar.Derives [.nonterminal grammar.start, .endMarker]
    (before ++ .nonterminal name :: symbol :: after)

/-- A terminal stands right behind a nonterminal in what an unreachable name derives. -/
def Leaks (grammar : Grammar) (name : Name) (symbol : Symbol) : Prop :=
  (∃ terminal, symbol = .terminal terminal) ∧
    ∃ root ∈ grammar.nonterminals, ¬ grammar.Reachable root ∧
      ∃ before after, grammar.Derives [.nonterminal root]
        (before ++ .nonterminal name :: symbol :: after)

section FromStart

variable {symbol : Symbol}

/-- What follows a nonterminal does so in what the start symbol derives, or leaks. -/
theorem Follows.fromStart_or_leaks (follows : grammar.Follows name symbol) :
    grammar.FollowsFromStart name symbol ∨ grammar.Leaks name symbol := by
  cases follows with
  | endMarker before chain =>
      refine .inl ⟨rfl, before, [], ?_⟩
      have whole := chain.with_endMarker
      rw [List.append_assoc] at whole
      exact whole
  | @terminal root terminal before after known chain =>
      by_cases reachable : grammar.Reachable root
      · obtain ⟨front, back, toRoot⟩ := reachable
        refine .inl ⟨rfl, front ++ before, after ++ (back ++ [.endMarker]), ?_⟩
        have inside := (Derives.refl front).append (chain.append (.refl back))
        have whole := (toRoot.trans inside).with_endMarker
        simpa using whole
      · exact .inr ⟨⟨terminal, rfl⟩, root, known, reachable, before, after, chain⟩

theorem FollowsFromStart.follows (wellFormed : grammar.WellFormed)
    (follows : grammar.FollowsFromStart name symbol) : grammar.Follows name symbol := by
  obtain ⟨isInput, before, after, chain⟩ := follows
  have followed := (setsClosed wellFormed).followed_of_derives chain
  exact (mem_follow_iff wellFormed).mp (followed.mem_follow isInput)

theorem Leaks.follows (leaks : grammar.Leaks name symbol) : grammar.Follows name symbol := by
  obtain ⟨⟨terminal, isTerminal⟩, root, known, _, before, after, chain⟩ := leaks
  subst isTerminal
  exact .terminal before after known chain

/-- FOLLOW holds what follows in sequences derived from the start symbol, and what leaks. -/
theorem mem_follow_iff_fromStart_or_leaks (wellFormed : grammar.WellFormed) :
    symbol ∈ grammar.follow.get name ↔
      grammar.FollowsFromStart name symbol ∨ grammar.Leaks name symbol := by
  rw [mem_follow_iff wellFormed]
  constructor
  · exact Follows.fromStart_or_leaks
  · rintro (fromStart | leaks)
    · exact fromStart.follows wellFormed
    · exact leaks.follows

end FromStart

theorem get?_follow (wellFormed : grammar.WellFormed) (known : name ∈ grammar.nonterminals) :
    grammar.follow.get? name = some (grammar.follow.get name) := by
  obtain ⟨set, found, _⟩ :=
    exists_isFollow wellFormed (.ofDefinition grammar grammar.firstSets) known
  rw [followSetsIn_ofDefinition] at found
  rw [found, FollowSets.get, SetFamily.get_eq_of_get? found]

theorem get?_follow_eq_none (wellFormed : grammar.WellFormed) (unknown : name ∉ grammar.nonterminals) :
    grammar.follow.get? name = none := by
  refine Decidable.byContradiction fun defined => unknown ?_
  rw [← mem_followNames_iff wellFormed, ← get?_followSeeds_ne_none_iff grammar.firstSets]
  exact (SetFamily.get?_propagate_ne_none_iff _ _ _ name).mp defined

theorem get?_follow_eq_ite (wellFormed : grammar.WellFormed) (name : Name) :
    grammar.follow.get? name =
      if name ∈ grammar.nonterminals then some (grammar.follow.get name) else none := by
  split
  · rename_i known
    exact get?_follow wellFormed known
  · rename_i unknown
    exact get?_follow_eq_none wellFormed unknown

/--
The computed FOLLOW set of each nonterminal is exact, and every order in which the worklist can go
finds the same set.
-/
theorem followSets_exact (built : grammar.Built) (known : name ∈ grammar.nonterminals) :
    ∃ set, (grammar.followSets grammar.firstSets).get? name = some set ∧
      grammar.IsFollow name set ∧
      ∀ order : grammar.FollowOrder grammar.firstSets, (followSetsIn order).get? name = some set := by
  obtain ⟨set, found, isFollow⟩ :=
    exists_isFollow built.wellFormed (.ofDefinition grammar grammar.firstSets) known
  rw [followSetsIn_ofDefinition] at found
  refine ⟨set, found, isFollow, fun order => ?_⟩
  obtain ⟨other, foundThere, isFollowThere⟩ := exists_isFollow built.wellFormed order known
  rw [foundThere, isFollowThere.unique isFollow]

/-- A grammar in which two nonterminals end in each other, so that the worklist goes round. -/
def alternation : Grammar :=
  .ofRules {}
    [⟨"S", [⟨[.nonterminal "A", .terminal "c"]⟩]⟩,
      ⟨"A", [⟨[.terminal "b", .nonterminal "B"]⟩]⟩,
      ⟨"B", [⟨[.terminal "d", .nonterminal "A"]⟩, ⟨[]⟩]⟩]

theorem built_alternation : alternation.Built :=
  .build (.add "B" [[.terminal "d", .nonterminal "A"], []]
    (.add "A" [[.terminal "b", .nonterminal "B"]]
      (.add "S" [[.nonterminal "A", .terminal "c"]] (.empty {})))) rfl

theorem followSets_exact_alternation :
    alternation.IsFollow "B" (.ofList [.terminal "c"]) ∧
      (followSetsIn (FollowOrder.ofDefinition alternation alternation.firstSets).reverse).get? "B" =
        some (.ofList [.terminal "c"]) := by
  have known : "B" ∈ alternation.nonterminals := by decide
  obtain ⟨set, found, isFollow, inAnyOrder⟩ := followSets_exact built_alternation known
  have isSet : (alternation.followSets alternation.firstSets).get? "B" =
      some (.ofList [.terminal "c"]) := by
    decide +kernel
  have same := Option.some.inj (isSet.symm.trans found)
  rw [same]
  exact ⟨isFollow, inAnyOrder _⟩

end Grammar

end Lookahead
