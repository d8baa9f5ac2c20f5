import Mathlib.Logic.Relation
import Lookahead.Proofs.Classes.Augmentation

/-!
# Grammars without empty alternatives

Where no alternative is empty, an item starts with an input symbol when what is
behind its dot does, and a grammar with a predictive table adds one item at most to
an item that starts with the same symbol.  So the items that start with a symbol lie
on one path from the item whose closure they are in, and the path does not come back
to a symbol behind a dot.  Each state is then the closure of a single item, and a
complete item is alone in its state: the shift-reduce tables have no conflicts.
-/

namespace Lookahead

namespace Grammar

def EpsilonFree (grammar : Grammar) : Prop :=
  ∀ name index production, grammar.production? name index = some production → production.body ≠ []

variable {grammar : Grammar} {symbols word : List Symbol}

theorem EpsilonFree.ne_nil_of_yields (free : grammar.EpsilonFree)
    (yields : grammar.Yields symbols word) (solid : symbols ≠ []) : word ≠ [] := by
  induction yields with
  | nil => exact solid
  | input => exact List.cons_ne_nil _ _
  | expand found _ _ bodyIH _ =>
      exact List.append_ne_nil_of_left_ne_nil (bodyIH (free _ _ _ found)) _

theorem EpsilonFree.augmented (free : grammar.EpsilonFree) :
    grammar.augmented.toGrammar.EpsilonFree := by
  intro name index production found
  by_cases isFresh : name = grammar.freshStart
  · rw [isFresh, production?_augmented_freshStart] at found
    rw [found.2]
    exact List.cons_ne_nil _ _
  · rw [production?_augmented isFresh] at found
    exact free name index production found

theorem productive_augmented (wellFormed : grammar.WellFormed)
    (productive : ∀ name ∈ grammar.nonterminals, grammar.Productive name) :
    ∀ name ∈ grammar.augmented.toGrammar.nonterminals,
      grammar.augmented.toGrammar.Productive name := by
  intro name known
  rcases List.mem_cons.mp known with isFresh | old
  · obtain ⟨word, terminals, chain⟩ := productive grammar.start wellFormed.start_defined
    exact ⟨word, terminals, isFresh ▸ (derives_freshStart grammar).trans chain.augmented⟩
  · obtain ⟨word, terminals, chain⟩ := productive name old
    exact ⟨word, terminals, chain.augmented⟩

end Grammar

namespace LR0

variable {grammar : Grammar} {symbol next : Symbol} {symbols word : List Symbol}
  {item added one other kernel : Item}

/-- What is behind the dot leads to an input symbol. -/
def Starts (grammar : Grammar) (symbol : Symbol) (item : Item) : Prop :=
  ∃ next, item.nextSymbol? grammar = some next ∧ grammar.Leads [next] [symbol]

/-- An item adds another one to its closure, which starts with an input symbol. -/
def AddsFor (grammar : Grammar) (symbol : Symbol) (item added : Item) : Prop :=
  added ∈ expansion grammar item ∧ Starts grammar symbol added

theorem AddsFor.exists_nonterminal (adds : AddsFor grammar symbol item added) :
    ∃ name, item.nextSymbol? grammar = some (.nonterminal name) := by
  obtain ⟨name, _, isNext, _⟩ := exists_of_mem_expansion adds.1
  exact ⟨name, isNext⟩

/-- What is added is an alternative of the nonterminal behind the dot that leads to the symbol. -/
theorem AddsFor.exists_leads {name : Name} (adds : AddsFor grammar symbol item added)
    (isNext : item.nextSymbol? grammar = some (.nonterminal name)) :
    ∃ production, added = ⟨name, added.production, 0⟩ ∧
      grammar.production? name added.production = some production ∧
      added.nextSymbol? grammar = production.body.head? ∧ grammar.Leads production.body [symbol] := by
  obtain ⟨inside, next, isHead, leads⟩ := adds
  obtain ⟨otherName, production, isAlsoNext, isInitial, found, atFront⟩ :=
    exists_of_mem_expansion inside
  have sameName : otherName = name :=
    Symbol.nonterminal.inj (Option.some.inj (isAlsoNext.symm.trans isNext))
  subst sameName
  refine ⟨production, isInitial, found, atFront, ?_⟩
  obtain ⟨rest, isBody⟩ := List.head?_eq_some_iff.mp (atFront.symm.trans isHead)
  rw [isBody]
  exact leads.append_right rest

/-- An item starts with whatever an item starts with that it adds. -/
theorem AddsFor.starts (adds : AddsFor grammar symbol item added) : Starts grammar symbol item := by
  obtain ⟨name, isNext⟩ := adds.exists_nonterminal
  obtain ⟨production, _, found, _, leads⟩ := adds.exists_leads isNext
  exact ⟨.nonterminal name, isNext, .inside [] found leads⟩

/-- The items of a closure that start with a symbol are added along items that do so too. -/
theorem reflTransGen_of_reached (reached : Exploration.Reached (expansion grammar) [kernel] item)
    (starts : Starts grammar symbol item) :
    Relation.ReflTransGen (AddsFor grammar symbol) kernel item := by
  induction reached with
  | seed found => exact List.mem_singleton.mp found ▸ .refl
  | step _ found ih =>
      have adds : AddsFor grammar symbol _ _ := ⟨found, starts⟩
      exact (ih adds.starts).tail adds

section Predictive

variable (wellFormed : grammar.WellFormed) (apart : ∀ name, grammar.OpensApart name)
include wellFormed apart

/-- A symbol tells which alternative is added. -/
theorem AddsFor.production_eq {name : Name} {index : Nat} {production : Production}
    (adds : AddsFor grammar symbol item added)
    (isNext : item.nextSymbol? grammar = some (.nonterminal name))
    (found : grammar.production? name index = some production)
    (leads : grammar.Leads production.body [symbol]) : added.production = index := by
  obtain ⟨another, _, otherFound, _, otherLeads⟩ := adds.exists_leads isNext
  have closed := Grammar.setsClosed wellFormed
  exact apart name symbol _ _ another production otherFound found
    (closed.opens_of_leads otherLeads) (closed.opens_of_leads leads)

theorem addsFor_rightUnique : Relator.RightUnique (AddsFor grammar symbol) := by
  intro item one other adds otherAdds
  obtain ⟨name, isNext⟩ := adds.exists_nonterminal
  obtain ⟨production, isOne, found, _, leads⟩ := adds.exists_leads isNext
  obtain ⟨_, isOther, _⟩ := otherAdds.exists_leads isNext
  have sameProduction := otherAdds.production_eq wellFormed apart isNext found leads
  rw [isOne, isOther, sameProduction]

end Predictive

/-- No path of items that start with a symbol comes back to an item. -/
theorem not_transGen_self (wellFormed : grammar.WellFormed) (apart : ∀ name, grammar.OpensApart name)
    (free : grammar.EpsilonFree) (leads : grammar.Leads symbols word) (isSingle : word = [symbol])
    (isNext : item.nextSymbol? grammar = symbols.head?) :
    ¬ Relation.TransGen (AddsFor grammar symbol) item item := by
  -- Along the derivation of the symbol each step goes to the only item that can be added.
  induction leads generalizing item with
  | nil => exact absurd isSingle.symm (List.cons_ne_nil _ _)
  | input isInput =>
      intro loop
      obtain ⟨added, adds, _⟩ := Relation.TransGen.head'_iff.mp loop
      obtain ⟨name, isAlsoNext⟩ := adds.exists_nonterminal
      rw [isNext, List.head?_cons, Option.some.injEq] at isAlsoNext
      rw [isAlsoNext] at isInput
      cases isInput
  | inside rest found body ih =>
      intro loop
      obtain ⟨added, adds, back⟩ := Relation.TransGen.head'_iff.mp loop
      have sameProduction := adds.production_eq wellFormed apart isNext found (isSingle ▸ body)
      obtain ⟨production, _, addedFound, atFront, _⟩ := adds.exists_leads isNext
      rw [sameProduction, found, Option.some.injEq] at addedFound
      rw [← addedFound] at atFront
      exact ih isSingle atFront (.tail' back adds)
  | past found body tail goesOn =>
      have begins := free.ne_nil_of_yields body (free _ _ _ found)
      have length := congrArg List.length isSingle
      rw [List.length_append, List.length_singleton] at length
      have front := List.length_pos_iff.mpr begins
      have back := List.length_pos_iff.mpr goesOn
      omega

/-- On one path there are no two items with the same symbol behind the dot. -/
theorem eq_of_reflTransGen (wellFormed : grammar.WellFormed)
    (apart : ∀ name, grammar.OpensApart name) (free : grammar.EpsilonFree)
    (path : Relation.ReflTransGen (AddsFor grammar symbol) one other)
    (isNext : one.nextSymbol? grammar = some next)
    (isAlsoNext : other.nextSymbol? grammar = some next)
    (leads : grammar.Leads [next] [symbol]) : one = other := by
  rcases path.cases_head with same | ⟨added, ⟨inside, starts⟩, onward⟩
  · exact same
  · have sameExpansion : expansion grammar one = expansion grammar other := by
      simp only [expansion, isNext, isAlsoNext]
    have adds : AddsFor grammar symbol other added := ⟨sameExpansion ▸ inside, starts⟩
    exact absurd (.head' adds onward)
      (not_transGen_self wellFormed apart free leads rfl isAlsoNext)

section Productive

variable (wellFormed : grammar.WellFormed) (apart : ∀ name, grammar.OpensApart name)
  (free : grammar.EpsilonFree)
  (productive : ∀ name ∈ grammar.nonterminals, grammar.Productive name)

include wellFormed free productive in
theorem exists_leads_of_nextSymbol? (isNext : item.nextSymbol? grammar = some next) :
    ∃ symbol, grammar.Leads [next] [symbol] := by
  obtain ⟨production, found, atDot⟩ := Option.bind_eq_some_iff.mp isNext
  have known : ∀ symbol ∈ [next], grammar.Known symbol := by
    simpa using Grammar.Known.of_body wellFormed found next (List.mem_of_getElem? atDot)
  obtain ⟨word, yields⟩ := Grammar.exists_yields_of_productive productive known
  obtain ⟨head, rest, isCons⟩ :=
    List.exists_cons_of_ne_nil (free.ne_nil_of_yields yields (List.cons_ne_nil _ _))
  rw [isCons] at yields
  refine ⟨head, (Grammar.leads_iff grammar _ _).mpr ⟨?_, rest, yields.derives⟩⟩
  simpa using yields.isInput head List.mem_cons_self

include wellFormed apart free productive

/-- In the closure of an item a symbol is behind one dot at most. -/
theorem eq_of_mem_closure_singleton (inside : one ∈ closure grammar (.singleton kernel))
    (alsoInside : other ∈ closure grammar (.singleton kernel))
    (isNext : one.nextSymbol? grammar = some next)
    (isAlsoNext : other.nextSymbol? grammar = some next) : one = other := by
  obtain ⟨symbol, leads⟩ := exists_leads_of_nextSymbol? wellFormed free productive isNext
  have path := reflTransGen_of_reached ((mem_closure _ _ _).mp inside) ⟨next, isNext, leads⟩
  have otherPath := reflTransGen_of_reached ((mem_closure _ _ _).mp alsoInside) ⟨next, isAlsoNext, leads⟩
  have unique : Relator.RightUnique (AddsFor grammar symbol) := addsFor_rightUnique wellFormed apart
  rcases Relation.ReflTransGen.total_of_right_unique unique path otherPath with onward | back
  · exact eq_of_reflTransGen wellFormed apart free onward isNext isAlsoNext leads
  · exact (eq_of_reflTransGen wellFormed apart free back isAlsoNext isNext leads).symm

/-- Every state is the closure of a single item. -/
theorem exists_eq_closure_singleton {state : ItemSet} (inside : state ∈ states grammar) :
    ∃ item, state = closure grammar (.singleton item) := by
  have reached := (Exploration.mem_explore state).mp inside
  induction reached with
  | seed found => exact ⟨_, List.mem_singleton.mp found⟩
  | step before found ih =>
      obtain ⟨kernel, isClosure⟩ := ih ((Exploration.mem_explore _).mpr before)
      obtain ⟨symbol, isNext, isTarget⟩ := List.mem_map.mp found
      obtain ⟨item, inState, atDot⟩ := (mem_nextSymbols _ _ _).mp ((SortedSet.mem_toList _ _).mp isNext)
      refine ⟨item.advance, ?_⟩
      rw [← isTarget, target]
      congr 1
      apply SortedSet.ext
      intro added
      rw [mem_advance, SortedSet.mem_singleton]
      constructor
      · rintro ⟨earlier, alsoInState, alsoAtDot, same⟩
        rw [isClosure] at inState alsoInState
        rw [← same, eq_of_mem_closure_singleton wellFormed apart free productive alsoInState inState
          alsoAtDot atDot]
      · rintro rfl
        exact ⟨item, inState, atDot, rfl⟩

end Productive

/-- Where no alternative is empty, a complete item is alone in a closure of a single item. -/
theorem eq_of_isComplete (free : grammar.EpsilonFree)
    (inside : item ∈ closure grammar (.singleton kernel))
    (complete : item.isComplete grammar = true)
    (alsoInside : other ∈ closure grammar (.singleton kernel)) : other = item := by
  have isKernel : item = kernel := by
    cases (mem_closure _ _ _).mp inside with
    | seed found => exact List.mem_singleton.mp found
    | step _ found =>
        obtain ⟨name, production, _, isInitial, addedFound, _⟩ := exists_of_mem_expansion found
        obtain ⟨_, completeFound, atEnd⟩ := Item.exists_production_of_isComplete complete
        rw [isInitial] at completeFound atEnd
        rw [addedFound, Option.some.injEq] at completeFound
        rw [← completeFound] at atEnd
        exact absurd (List.length_eq_zero_iff.mp (Nat.le_zero.mp atEnd)) (free _ _ _ addedFound)
  have reached := (mem_closure _ _ _).mp alsoInside
  induction reached with
  | seed found => exact isKernel ▸ List.mem_singleton.mp found
  | step before found ih =>
      rw [ih ((mem_closure _ _ _).mpr before)] at found
      obtain ⟨_, _, isNext, _⟩ := exists_of_mem_expansion found
      rw [Item.nextSymbol?_eq_none complete] at isNext
      cases isNext

/-- A complete item leaves its state nowhere to go. -/
theorem not_mem_transitionsOf {all : List ItemSet} {number : Nat} (free : grammar.EpsilonFree)
    (inside : item ∈ closure grammar (.singleton kernel))
    (complete : item.isComplete grammar = true) :
    (symbol, number) ∉ Automaton.transitionsOf grammar all (closure grammar (.singleton kernel)) := by
  intro goes
  obtain ⟨earlier, alsoInside, atDot⟩ :=
    (mem_nextSymbols _ _ _).mp (Automaton.mem_transitionsOf.mp goes).1
  rw [eq_of_isComplete free inside complete alsoInside, Item.nextSymbol?_eq_none complete] at atDot
  cases atDot

end LR0

namespace SLR1

variable {grammar : Grammar}

/-- No state that is the closure of a single item has a conflict, where no alternative is empty. -/
theorem isSLR1_of_singletons (free : grammar.EpsilonFree)
    (single : ∀ state ∈ LR0.states grammar.augmented.toGrammar,
      ∃ item, state = LR0.closure grammar.augmented.toGrammar (.singleton item)) :
    grammar.analysis.isSLR1 = true := by
  refine Tables.isOk_build_iff.mpr fun state inside lookahead one other claimed otherClaimed => ?_
  obtain ⟨kernel, isClosure⟩ := single state inside
  subst isClosure
  rcases mem_claims_stateRow.mp claimed with shifted | ⟨item, inState, byItem⟩
  · obtain ⟨_, next, isShift, goes⟩ := mem_shifts.mp shifted
    rcases mem_claims_stateRow.mp otherClaimed with alsoShifted | ⟨item, inState, byItem⟩
    · obtain ⟨_, another, isAlsoShift, goesAlso⟩ := mem_shifts.mp alsoShifted
      rw [isShift, isAlsoShift, LR0.Automaton.transition_unique goes goesAlso]
    · exact absurd goes (LR0.not_mem_transitionsOf free.augmented inState
        (isComplete_of_mem_itemClaims byItem))
  · have complete := isComplete_of_mem_itemClaims byItem
    rcases mem_claims_stateRow.mp otherClaimed with shifted | ⟨another, alsoInState, byAnother⟩
    · obtain ⟨_, next, _, goes⟩ := mem_shifts.mp shifted
      exact absurd goes (LR0.not_mem_transitionsOf free.augmented inState complete)
    · rw [LR0.eq_of_isComplete free.augmented inState complete alsoInState] at byAnother
      exact eq_of_mem_itemClaims byItem byAnother

end SLR1

namespace Grammar

/--
A grammar of productive nonterminals without empty alternatives that has a predictive table has
shift-reduce tables too, and each state of its automaton is the closure of a single item.
-/
theorem isSLR1_of_isLL1 {grammar : Grammar} (built : grammar.Built) (free : grammar.EpsilonFree)
    (productive : ∀ name ∈ grammar.nonterminals, grammar.Productive name)
    (isLL1 : grammar.analysis.isLL1 = true) :
    grammar.analysis.isSLR1 = true ∧ ∀ state ∈ grammar.automaton.states,
      ∃ item, state = LR0.closure grammar.augmented.toGrammar (.singleton item) := by
  have wellFormed := built.wellFormed
  have apart := (isLL1_iff wellFormed.augmented).mp ((isLL1_augmented_iff wellFormed).mpr isLL1)
  have single : ∀ state ∈ LR0.states grammar.augmented.toGrammar,
      ∃ item, state = LR0.closure grammar.augmented.toGrammar (.singleton item) := fun state inside =>
    LR0.exists_eq_closure_singleton wellFormed.augmented apart free.augmented
      (productive_augmented wellFormed productive) inside
  exact ⟨SLR1.isSLR1_of_singletons free single, single⟩

def centredPairs : Grammar :=
  .ofRules {} [⟨"S", [⟨[.terminal "a", .nonterminal "S", .terminal "b"]⟩, ⟨[.terminal "c"]⟩]⟩]

theorem built_centredPairs : centredPairs.Built :=
  .build (.add "S" [[.terminal "a", .nonterminal "S", .terminal "b"], [.terminal "c"]]
    (.empty {})) rfl

theorem epsilonFree_centredPairs : centredPairs.EpsilonFree := by
  intro name index production found
  have listed := (mem_indexedProductions built_centredPairs.wellFormed.nonterminals_nodup).mpr found
  have solid : ∀ entry ∈ centredPairs.indexedProductions, entry.2.2.body ≠ [] := by decide
  exact solid _ listed

theorem centredPairs_productive (name : Name) (known : name ∈ centredPairs.nonterminals) :
    centredPairs.Productive name := by
  have found : centredPairs.production? "S" 1 = some ⟨[.terminal "c"]⟩ := rfl
  rw [List.mem_singleton.mp known]
  refine ⟨[.terminal "c"], fun symbol inside => ?_, .of_production found⟩
  exact ⟨"c", List.mem_singleton.mp inside⟩

theorem isSLR1_centredPairs : centredPairs.analysis.isLL1 = true ∧
    centredPairs.analysis.isSLR1 = true ∧ ∀ state ∈ centredPairs.automaton.states,
      ∃ item, state = LR0.closure centredPairs.augmented.toGrammar (.singleton item) := by
  have isLL1 : centredPairs.analysis.isLL1 = true := by decide +kernel
  exact ⟨isLL1, isSLR1_of_isLL1 built_centredPairs epsilonFree_centredPairs centredPairs_productive
    isLL1⟩

end Grammar

end Lookahead
