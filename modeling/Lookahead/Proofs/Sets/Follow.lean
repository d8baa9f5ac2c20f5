import Lookahead.Follow
import Lookahead.Proofs.Sets.First

/-!
# FOLLOW sets are closed

The worklist keeps this: the set of a name that does not wait is included in the
sets of its targets.  When nothing waits, every inclusion holds.
-/

namespace Lookahead

namespace SetFamily

theorem mem_get_extend_of_mem {family : SetFamily} {other : Name} {symbol : Symbol} (name : Name)
    (symbols : SymbolSet) (inside : symbol ∈ family.get other) :
    symbol ∈ (family.extend name symbols).get other :=
  (family.get_extend name other symbols symbol).mpr (.inl inside)

theorem get_extend_of_ne {family : SetFamily} {name other : Name} (different : other ≠ name)
    (symbols : SymbolSet) : (family.extend name symbols).get other = family.get other := by
  rw [get, get?_extend, if_neg different, get]

/-- What carrying symbols to targets does: sets and queue grow, and what grows is queued. -/
structure Carried (symbols : SymbolSet) (targets : List Name) (before after : SetFamily × List Name) :
    Prop where
  mono : ∀ name, before.1.get name ⊆ after.1.get name
  queue_subset : ∀ name ∈ before.2, name ∈ after.2
  defined_iff : ∀ name, after.1.get? name ≠ none ↔ before.1.get? name ≠ none
  reached : ∀ name ∈ targets, before.1.get? name ≠ none → symbols ⊆ after.1.get name
  queued : ∀ name, after.1.get name = before.1.get name ∨ name ∈ after.2

namespace Carried

variable {symbols : SymbolSet}

theorem refl (work : SetFamily × List Name) : Carried symbols [] work work where
  mono := fun _ _ inside => inside
  queue_subset := fun _ inside => inside
  defined_iff := fun _ => Iff.rfl
  reached := List.forall_mem_nil _
  queued := fun _ => .inl rfl

/-- A target that has no set, or has the symbols already, is passed over. -/
theorem skip {target : Name} {rest : List Name} {before after : SetFamily × List Name}
    (settled : before.1.get? target ≠ none → symbols ⊆ before.1.get target)
    (carried : Carried symbols rest before after) :
    Carried symbols (target :: rest) before after where
  mono := carried.mono
  queue_subset := carried.queue_subset
  defined_iff := carried.defined_iff
  reached := by
    intro name inside defined
    rcases List.mem_cons.mp inside with here | later
    · subst here
      exact fun symbol found => carried.mono name symbol (settled defined symbol found)
    · exact carried.reached name later defined
  queued := carried.queued

/-- A target that lacks some of the symbols receives them and waits in the queue. -/
theorem give {target : Name} {rest queue : List Name} {family : SetFamily}
    {after : SetFamily × List Name}
    (carried : Carried symbols rest
      (family.extend target symbols, if target ∈ queue then queue else queue ++ [target]) after) :
    Carried symbols (target :: rest) (family, queue) after := by
  have waits : target ∈ after.2 := by
    apply carried.queue_subset target
    show target ∈ if target ∈ queue then queue else queue ++ [target]
    split
    · assumption
    · simp
  constructor
  · intro name symbol inside
    exact carried.mono name symbol (mem_get_extend_of_mem target symbols inside)
  · intro name inside
    apply carried.queue_subset name
    show name ∈ if target ∈ queue then queue else queue ++ [target]
    split
    · exact inside
    · exact List.mem_append_left _ inside
  · intro name
    exact (carried.defined_iff name).trans (family.get?_extend_ne_none_iff target name symbols)
  · intro name inside defined
    rcases List.mem_cons.mp inside with here | later
    · subst here
      intro symbol found
      exact carried.mono name symbol
        ((family.get_extend name name symbols symbol).mpr (.inr ⟨rfl, defined, found⟩))
    · exact carried.reached name later
        ((family.get?_extend_ne_none_iff target name symbols).mpr defined)
  · intro name
    by_cases isTarget : name = target
    · exact .inr (isTarget ▸ waits)
    · rcases carried.queued name with same | waiting
      · exact .inl (same.trans (get_extend_of_ne isTarget symbols))
      · exact .inr waiting

end Carried

theorem carried_carry (symbols : SymbolSet) (targets : List Name) (work : SetFamily × List Name) :
    Carried symbols targets work (carry symbols targets work) := by
  fun_induction carry symbols targets work with
  | case1 work => exact .refl work
  | case2 target rest family queue missing ih =>
      exact ih.skip fun defined => absurd missing defined
  | case3 target rest family queue set found contained ih =>
      exact ih.skip fun _ => (get_eq_of_get? found).symm ▸ contained
  | case4 target rest family queue set found lacks ih => exact ih.give

/-- Every inclusion holds whose source does not wait in the queue. -/
def ClosedExcept (edges : List FollowEdge) (queue : List Name) (family : SetFamily) : Prop :=
  ∀ edge ∈ edges, edge.source ∈ queue ∨ family.get edge.source ⊆ family.get edge.target

theorem mem_targets {edges : List FollowEdge} {edge : FollowEdge} (inside : edge ∈ edges) :
    edge.target ∈ targets edges edge.source :=
  List.mem_map.mpr ⟨edge, List.mem_filter.mpr ⟨inside, by simp⟩, rfl⟩

/-- A name no longer waits when its set is carried to all its targets. -/
theorem ClosedExcept.carry {edges : List FollowEdge} {family : SetFamily} {name : Name}
    {targets rest : List Name} (defined : ∀ edge ∈ edges, family.get? edge.target ≠ none)
    (all : ∀ edge ∈ edges, edge.source = name → edge.target ∈ targets)
    (closed : ClosedExcept edges (name :: rest) family) :
    ClosedExcept edges (SetFamily.carry (family.get name) targets (family, rest)).2
      (SetFamily.carry (family.get name) targets (family, rest)).1 := by
  have carried := carried_carry (family.get name) targets (family, rest)
  intro edge inside
  rcases carried.queued edge.source with same | waiting
  · by_cases isName : edge.source = name
    · have included := carried.reached edge.target (all edge inside isName) (defined edge inside)
      refine .inr ?_
      rw [same, isName]
      exact included
    · rcases closed edge inside with waits | included
      · rcases List.mem_cons.mp waits with here | later
        · exact absurd here isName
        · exact .inl (carried.queue_subset edge.source later)
      · refine .inr ?_
        rw [same]
        exact fun symbol found => carried.mono edge.target symbol (included symbol found)
  · exact .inl waiting

theorem mono_propagate (edges : List FollowEdge) (family : SetFamily) (queue : List Name)
    (name : Name) : family.get name ⊆ (propagate edges family queue).get name := by
  fun_induction propagate edges family queue with
  | case1 => exact fun _ inside => inside
  | case2 family waiting rest work ih =>
      intro symbol inside
      exact ih symbol ((carried_carry _ _ (family, rest)).mono name symbol inside)

theorem get?_propagate_ne_none_iff (edges : List FollowEdge) (family : SetFamily)
    (queue : List Name) (name : Name) :
    (propagate edges family queue).get? name ≠ none ↔ family.get? name ≠ none := by
  fun_induction propagate edges family queue with
  | case1 => exact Iff.rfl
  | case2 family waiting rest work ih =>
      exact ih.trans ((carried_carry _ _ (family, rest)).defined_iff name)

/-- Started with every source of an edge in the queue, the worklist makes all inclusions hold. -/
theorem propagate_closed {edges : List FollowEdge} {family : SetFamily} {queue : List Name}
    (defined : ∀ edge ∈ edges, family.get? edge.target ≠ none)
    (closed : ClosedExcept edges queue family) {edge : FollowEdge} (inside : edge ∈ edges) :
    (propagate edges family queue).get edge.source ⊆
      (propagate edges family queue).get edge.target := by
  fun_induction propagate edges family queue with
  | case1 family =>
      rcases closed edge inside with waits | included
      · exact absurd waits List.not_mem_nil
      · exact included
  | case2 family waiting rest work ih =>
      refine ih ?_ (closed.carry defined fun edge inside isName => isName ▸ mem_targets inside)
      intro other found
      exact ((carried_carry _ _ (family, rest)).defined_iff other.target).mpr (defined other found)

end SetFamily

theorem mem_occurrences_iff (name : Name) (tail body : List Symbol) :
    (name, tail) ∈ occurrences body ↔ ∃ before, body = before ++ .nonterminal name :: tail := by
  induction body with
  | nil => simp [occurrences]
  | cons head rest ih =>
      have later : (∃ before, rest = before ++ .nonterminal name :: tail) →
          ∃ before, head :: rest = before ++ .nonterminal name :: tail := by
        rintro ⟨before, same⟩
        exact ⟨head :: before, by rw [same]; rfl⟩
      constructor
      · intro inside
        cases head with
        | nonterminal other =>
            rcases List.mem_cons.mp inside with here | inRest
            · obtain ⟨sameName, sameTail⟩ := Prod.mk.inj here
              exact ⟨[], by rw [sameName, sameTail]; rfl⟩
            · exact later (ih.mp inRest)
        | terminal other => exact later (ih.mp inside)
        | epsilon => exact later (ih.mp inside)
        | endMarker => exact later (ih.mp inside)
      · rintro ⟨before, same⟩
        cases before with
        | nil =>
            obtain ⟨isHead, isRest⟩ := List.cons.inj same
            subst isHead isRest
            exact List.mem_cons_self
        | cons first others =>
            have inRest := ih.mpr ⟨others, (List.cons.inj same).2⟩
            cases head with
            | nonterminal other => exact List.mem_cons_of_mem _ inRest
            | terminal other => exact inRest
            | epsilon => exact inRest
            | endMarker => exact inRest

namespace Grammar

variable {grammar : Grammar}

/-- FOLLOW holds what stands after each nonterminal, by the bodies and after the start. -/
structure FollowClosed (grammar : Grammar) (first : FirstSets) (follow : FollowSets) : Prop where
  start : .endMarker ∈ follow.get grammar.start
  next : ∀ lhs index production before name tail,
    grammar.production? lhs index = some production →
    production.body = before ++ .nonterminal name :: tail →
    ∀ symbol ∈ first.ofSequence tail, symbol ≠ .epsilon → symbol ∈ follow.get name
  last : ∀ lhs index production before name tail,
    grammar.production? lhs index = some production →
    production.body = before ++ .nonterminal name :: tail →
    .epsilon ∈ first.ofSequence tail → follow.get lhs ⊆ follow.get name

theorem mem_occurrences_of_production? (wellFormed : grammar.WellFormed) {lhs name : Name}
    {index : Nat} {production : Production} {before tail : List Symbol}
    (found : grammar.production? lhs index = some production)
    (splits : production.body = before ++ .nonterminal name :: tail) :
    ⟨lhs, name, tail⟩ ∈ grammar.occurrences := by
  have listed := (mem_indexedProductions wellFormed.nonterminals_nodup).mpr found
  exact List.mem_flatMap.mpr ⟨_, listed, List.mem_map.mpr
    ⟨(name, tail), (mem_occurrences_iff name tail production.body).mpr ⟨before, splits⟩, rfl⟩⟩

/-- Every occurrence stands in a body of its rule. -/
theorem exists_production_of_occurrence (wellFormed : grammar.WellFormed) {occurrence : Occurrence}
    (inside : occurrence ∈ grammar.occurrences) :
    ∃ index production before, grammar.production? occurrence.lhs index = some production ∧
      production.body = before ++ .nonterminal occurrence.name :: occurrence.tail := by
  obtain ⟨⟨lhs, index, production⟩, listed, inBody⟩ := List.mem_flatMap.mp inside
  obtain ⟨⟨name, tail⟩, occurs, same⟩ := List.mem_map.mp inBody
  obtain ⟨before, splits⟩ := (mem_occurrences_iff name tail production.body).mp occurs
  subst same
  exact ⟨index, production, before,
    (mem_indexedProductions wellFormed.nonterminals_nodup).mp listed, splits⟩

theorem mem_followNames_of_occurrence (wellFormed : grammar.WellFormed) {occurrence : Occurrence}
    (inside : occurrence ∈ grammar.occurrences) :
    occurrence.lhs ∈ grammar.followNames ∧ occurrence.name ∈ grammar.followNames := by
  obtain ⟨index, production, before, found, splits⟩ :=
    exists_production_of_occurrence wellFormed inside
  have inSymbols : Symbol.nonterminal occurrence.name ∈ grammar.bodySymbols :=
    mem_bodySymbols_of_production? found (by rw [splits]; simp)
  simp only [followNames, SortedSet.mem_ofList, List.mem_append, List.mem_cons,
    List.mem_filterMap]
  exact ⟨.inl (.inr (mem_nonterminals_of_production? found)), .inr ⟨_, inSymbols, rfl⟩⟩

section Seeds

variable {family : SetFamily} (seed : Occurrence → SymbolSet)

/-- Putting a set of symbols into the set of each occurrence keeps what is there. -/
theorem mem_get_foldl_extend_of_mem (occurrences : List Occurrence) {name : Name} {symbol : Symbol}
    (inside : symbol ∈ family.get name) :
    symbol ∈ (occurrences.foldl (fun family occurrence =>
      family.extend occurrence.name (seed occurrence)) family).get name := by
  induction occurrences generalizing family with
  | nil => exact inside
  | cons head rest ih =>
      exact ih (SetFamily.mem_get_extend_of_mem head.name (seed head) inside)

theorem get?_foldl_extend_ne_none_iff (occurrences : List Occurrence) (name : Name) :
    (occurrences.foldl (fun family occurrence =>
      family.extend occurrence.name (seed occurrence)) family).get? name ≠ none ↔
        family.get? name ≠ none := by
  induction occurrences generalizing family with
  | nil => exact Iff.rfl
  | cons head rest ih =>
      rw [List.foldl_cons, ih]
      exact family.get?_extend_ne_none_iff _ _ _

theorem mem_get_foldl_extend {occurrences : List Occurrence} {occurrence : Occurrence}
    {symbol : Symbol} (found : occurrence ∈ occurrences)
    (defined : family.get? occurrence.name ≠ none) (inside : symbol ∈ seed occurrence) :
    symbol ∈ (occurrences.foldl (fun family occurrence =>
      family.extend occurrence.name (seed occurrence)) family).get occurrence.name := by
  induction occurrences generalizing family with
  | nil => exact absurd found List.not_mem_nil
  | cons head rest ih =>
      rw [List.foldl_cons]
      rcases List.mem_cons.mp found with here | later
      · subst here
        exact mem_get_foldl_extend_of_mem seed rest
          ((family.get_extend _ _ _ symbol).mpr (.inr ⟨rfl, defined, inside⟩))
      · exact ih later ((family.get?_extend_ne_none_iff _ _ _).mpr defined)

end Seeds

theorem get?_followSeeds_ne_none_iff (first : FirstSets) (name : Name) :
    (grammar.followSeeds first).get? name ≠ none ↔ name ∈ grammar.followNames := by
  rw [followSeeds, get?_foldl_extend_ne_none_iff, SetFamily.get?_extend_ne_none_iff]
  exact (SetFamily.get?_ofNames_ne_none_iff _ _).trans (SortedSet.mem_toList _ _)

theorem get?_followSeeds_ne_none (first : FirstSets) {name : Name}
    (known : name ∈ grammar.followNames) : (grammar.followSeeds first).get? name ≠ none :=
  (get?_followSeeds_ne_none_iff first name).mpr known

theorem mem_followNames_iff (wellFormed : grammar.WellFormed) (name : Name) :
    name ∈ grammar.followNames ↔ name ∈ grammar.nonterminals := by
  simp only [followNames, SortedSet.mem_ofList, List.mem_append, List.mem_cons,
    List.mem_filterMap, Symbol.nonterminal?_eq_some_iff]
  constructor
  · rintro ((isStart | known) | ⟨symbol, inside, isName⟩)
    · exact isStart ▸ wellFormed.start_defined
    · exact known
    · rcases wellFormed.body_resolved symbol inside with ⟨_, isTerminal, _⟩ | ⟨_, same, known⟩
      · exact Symbol.noConfusion (isTerminal.symm.trans isName)
      · exact Symbol.nonterminal.inj (same.symm.trans isName) ▸ known
  · exact fun known => .inl (.inr known)

theorem start_mem_followNames (grammar : Grammar) : grammar.start ∈ grammar.followNames := by
  simp [followNames]

/--
The FOLLOW sets are closed, in whatever order all names wait in the worklist at first and the edges
are gone along.
-/
theorem followClosed_propagate (wellFormed : grammar.WellFormed) (first : FirstSets)
    {edges : List FollowEdge} (same : ∀ edge, edge ∈ edges ↔ edge ∈ grammar.followEdges first)
    {queue : List Name} (all : ∀ name ∈ grammar.followNames, name ∈ queue) :
    grammar.FollowClosed first ⟨(grammar.followSeeds first).propagate edges queue⟩ where
  start := by
    apply SetFamily.mono_propagate
    refine mem_get_foldl_extend_of_mem _ _ ((SetFamily.get_extend _ _ _ _ _).mpr (.inr ⟨rfl, ?_, ?_⟩))
    · exact (SetFamily.get?_ofNames_ne_none_iff _ _).mpr (start_mem_followNames grammar)
    · exact (SortedSet.mem_singleton _ _).mpr rfl
  next := by
    intro lhs index production before name tail found splits symbol inside solid
    have occurs := mem_occurrences_of_production? wellFormed found splits
    have known := (mem_followNames_of_occurrence wellFormed occurs).2
    refine SetFamily.mono_propagate _ _ _ _ _ (mem_get_foldl_extend _ occurs ?_ ?_)
    · rw [SetFamily.get?_extend_ne_none_iff]
      exact (SetFamily.get?_ofNames_ne_none_iff _ _).mpr known
    · exact (SortedSet.mem_filter _ _ _).mpr ⟨inside, decide_eq_true solid⟩
  last := by
    intro lhs index production before name tail found splits vanishes
    by_cases isSelf : name = lhs
    · subst isSelf
      exact fun _ inside => inside
    · have occurs := mem_occurrences_of_production? wellFormed found splits
      have isEdge : ⟨lhs, name⟩ ∈ grammar.followEdges first := by
        refine List.mem_map.mpr ⟨_, List.mem_filter.mpr ⟨occurs, ?_⟩, rfl⟩
        simp [isSelf, vanishes]
      refine SetFamily.propagate_closed ?_ ?_ ((same _).mpr isEdge)
      · intro edge inside
        obtain ⟨occurrence, filtered, isTarget⟩ := List.mem_map.mp ((same edge).mp inside)
        rw [← isTarget]
        exact get?_followSeeds_ne_none first
          (mem_followNames_of_occurrence wellFormed (List.mem_filter.mp filtered).1).2
      · intro edge inside
        obtain ⟨occurrence, filtered, isSource⟩ := List.mem_map.mp ((same edge).mp inside)
        rw [← isSource]
        exact .inl (all occurrence.lhs
          (mem_followNames_of_occurrence wellFormed (List.mem_filter.mp filtered).1).1)

abbrev follow (grammar : Grammar) : FollowSets := grammar.followSets grammar.firstSets

theorem followClosed_followSets (wellFormed : grammar.WellFormed) (first : FirstSets) :
    grammar.FollowClosed first (grammar.followSets first) :=
  followClosed_propagate wellFormed first (fun _ => Iff.rfl) fun _ known => known

end Grammar

end Lookahead
