import Mathlib.Logic.Equiv.Basic
import Lookahead.Proofs.Parse.Relocation

/-!
# Grammars in another order

A grammar may define the same rules and alternatives in another order.  Its
productions are at other places then, and that is all that changes: the sets, the
classes, the automaton with its numbers and the answers of both parsers stay.
-/

namespace Lookahead

/-- Leave the first place and change the ones behind it. -/
def behindFirst (place : Equiv.Perm Nat) : Equiv.Perm Nat where
  toFun
    | 0 => 0
    | index + 1 => place index + 1
  invFun
    | 0 => 0
    | index + 1 => place.symm index + 1
  left_inv := by
    rintro (_ | index)
    · rfl
    · simp
  right_inv := by
    rintro (_ | index)
    · rfl
    · simp

/-- Permuted lists have the same values at places that correspond. -/
theorem exists_place_of_perm {α : Type} {first second : List α} (perm : first.Perm second) :
    ∃ place : Equiv.Perm Nat, ∀ index, second[place index]? = first[index]? := by
  induction perm with
  | nil => exact ⟨.refl Nat, fun _ => rfl⟩
  | cons value _ ih =>
      obtain ⟨place, same⟩ := ih
      refine ⟨behindFirst place, ?_⟩
      rintro (_ | index)
      · rfl
      · exact same index
  | swap value other rest =>
      refine ⟨.swap 0 1, ?_⟩
      rintro (_ | _ | index)
      · rfl
      · rfl
      · rw [Equiv.swap_apply_of_ne_of_ne (by omega) (by omega)]
        rfl
  | trans _ _ lower upper =>
      obtain ⟨inner, sameInner⟩ := lower
      obtain ⟨outer, sameOuter⟩ := upper
      exact ⟨inner.trans outer, fun index => (sameOuter _).trans (sameInner index)⟩

namespace Grammar

/-- The same names in the same conventions, with the same alternatives, in whatever order. -/
structure ReorderingOf (first second : Grammar) : Prop where
  conventions : first.conventions = second.conventions
  names : ∀ name, name ∈ first.nonterminals ↔ name ∈ second.nonterminals
  alternatives : ∀ name, (first.productions name).Perm (second.productions name)

/-- What stands in bodies stands in productions that are found by name and place. -/
theorem mem_bodySymbols_iff {grammar : Grammar} (wellFormed : grammar.WellFormed) {symbol : Symbol} :
    symbol ∈ grammar.bodySymbols ↔
      ∃ name index production, grammar.production? name index = some production ∧
        symbol ∈ production.body := by
  constructor
  · intro inside
    obtain ⟨rule, ruleInside, inRule⟩ := List.mem_flatMap.mp inside
    obtain ⟨production, listed, inBody⟩ := List.mem_flatMap.mp inRule
    obtain ⟨index, atIndex⟩ := List.getElem?_of_mem listed
    have found := rule?_of_mem wellFormed.nonterminals_nodup ruleInside
    exact ⟨rule.lhs, index, production, production?_eq_some_iff.mpr ⟨rule, found, atIndex⟩, inBody⟩
  · rintro ⟨name, index, production, found, inBody⟩
    exact mem_bodySymbols_of_production? found inBody

variable {first second : Grammar}

/-- The search for a fresh name depends on the start symbol and on which names are taken. -/
theorem freshStart_eq_of_taken (sameStart : first.start = second.start)
    (sameTaken : ∀ name, name ∈ first.nonterminals ∨ name ∈ first.terminals ↔
      name ∈ second.nonterminals ∨ name ∈ second.terminals) :
    second.freshStart = first.freshStart := by
  obtain ⟨one, onePositive, isOne, onePassed⟩ := exists_freshStart_eq_primed first
  obtain ⟨other, otherPositive, isOther, otherPassed⟩ := exists_freshStart_eq_primed second
  have oneFree : ¬ (primed first.start one ∈ first.nonterminals ∨
      primed first.start one ∈ first.terminals) := by
    rw [← isOne, not_or]
    exact ⟨freshStart_not_mem_nonterminals first, freshStart_not_mem_terminals first⟩
  have otherFree : ¬ (primed second.start other ∈ second.nonterminals ∨
      primed second.start other ∈ second.terminals) := by
    rw [← isOther, not_or]
    exact ⟨freshStart_not_mem_nonterminals second, freshStart_not_mem_terminals second⟩
  rw [isOne, isOther, sameStart]
  rw [sameStart] at oneFree onePassed
  rcases Nat.lt_trichotomy one other with less | same | greater
  · exact absurd ((sameTaken _).mpr (otherPassed one onePositive less)) oneFree
  · rw [same]
  · exact absurd ((sameTaken _).mp (onePassed other otherPositive greater)) otherFree

namespace ReorderingOf

theorem symm (reordering : first.ReorderingOf second) : second.ReorderingOf first where
  conventions := reordering.conventions.symm
  names := fun name => (reordering.names name).symm
  alternatives := fun name => (reordering.alternatives name).symm

theorem exists_relocated (reordering : first.ReorderingOf second) :
    ∃ place, first.Relocated second place := by
  have places := fun name => exists_place_of_perm (reordering.alternatives name)
  refine ⟨fun name => (places name).choose, ?_, fun name index => (places name).choose_spec index⟩
  rw [start, start, reordering.conventions]

section WellFormed

variable (reordering : first.ReorderingOf second) (firstFormed : first.WellFormed)
  (secondFormed : second.WellFormed)
include reordering firstFormed secondFormed

theorem terminals_subset : first.terminals ⊆ second.terminals := by
  intro name inside
  obtain ⟨place, relocated⟩ := reordering.exists_relocated
  rw [firstFormed.mem_terminals, mem_bodySymbols_iff firstFormed] at inside
  obtain ⟨lhs, index, production, found, inBody⟩ := inside
  rw [secondFormed.mem_terminals]
  exact mem_bodySymbols_of_production? ((relocated.production? lhs index).trans found) inBody

theorem terminals_eq : second.terminals = first.terminals :=
  SortedSet.ext fun name =>
    ⟨reordering.symm.terminals_subset secondFormed firstFormed name,
      reordering.terminals_subset firstFormed secondFormed name⟩

theorem freshStart_eq : second.freshStart = first.freshStart := by
  refine freshStart_eq_of_taken (congrArg Conventions.start reordering.conventions) fun name => ?_
  rw [reordering.names, reordering.terminals_eq firstFormed secondFormed]

theorem augmented : first.augmented.toGrammar.ReorderingOf second.augmented.toGrammar := by
  have sameFresh := reordering.freshStart_eq firstFormed secondFormed
  refine ⟨?_, fun name => ?_, fun name => ?_⟩
  · simp only [Grammar.augmented, conventions_indexed, reordering.conventions, sameFresh]
  · rw [nonterminals_augmented, nonterminals_augmented, List.mem_cons, List.mem_cons, sameFresh,
      reordering.names]
  · by_cases isFresh : name = first.freshStart
    · rw [isFresh, productions_augmented_freshStart, ← sameFresh, productions_augmented_freshStart,
        start, start, reordering.conventions]
    · rw [productions_augmented isFresh, productions_augmented (sameFresh ▸ isFresh)]
      exact reordering.alternatives name

theorem first_get?_eq (symbol : Symbol) :
    second.firstSets.get? symbol = first.firstSets.get? symbol := by
  obtain ⟨place, relocated⟩ := reordering.exists_relocated
  cases symbol with
  | terminal name =>
      have sameTerminals : second.firstSets.terminals = first.firstSets.terminals :=
        reordering.terminals_eq firstFormed secondFormed
      rw [FirstSets.get?, FirstSets.get?, sameTerminals]
  | nonterminal name =>
      simp only [get?_nonterminal_firstSets_eq_ite, reordering.names,
        relocated.ofSequence_eq firstFormed secondFormed]
  | epsilon => rfl
  | endMarker => rfl

theorem follow_get?_eq (name : Name) : second.follow.get? name = first.follow.get? name := by
  obtain ⟨place, relocated⟩ := reordering.exists_relocated
  simp only [get?_follow_eq_ite firstFormed, get?_follow_eq_ite secondFormed, reordering.names,
    relocated.follow_get_eq firstFormed secondFormed]

/-- The augmented grammars have their productions at other places too, and the start stays. -/
theorem exists_relocated_augmented :
    ∃ place, first.augmented.toGrammar.Relocated second.augmented.toGrammar place ∧
      place first.freshStart 0 = 0 := by
  obtain ⟨place, relocated⟩ := (reordering.augmented firstFormed secondFormed).exists_relocated
  have moved := (relocated.production? first.freshStart 0).trans (production?_freshStart first)
  rw [← reordering.freshStart_eq firstFormed secondFormed] at moved ⊢
  exact ⟨place, relocated, eq_zero_of_production?_freshStart _ _ moved⟩

end WellFormed

end ReorderingOf

/--
A grammar defined in another order has the same FIRST and FOLLOW sets and is in the same classes.
Under each number its automaton has the same transitions, and the same items but for the places of
productions.  The parsers give the same answers.
-/
theorem reordering_keeps (firstBuilt : first.Built) (secondBuilt : second.Built)
    (reordering : first.ReorderingOf second) :
    (∀ symbol, second.firstSets.get? symbol = first.firstSets.get? symbol) ∧
    (∀ symbols, second.firstSets.ofSequence symbols = first.firstSets.ofSequence symbols) ∧
    (∀ name, second.follow.get? name = first.follow.get? name) ∧
    second.analysis.isLL1 = first.analysis.isLL1 ∧
    second.analysis.isSLR1 = first.analysis.isSLR1 ∧
    (∃ place : Name → Equiv.Perm Nat,
      (∀ name index, second.augmented.toGrammar.production? name (place name index) =
        first.augmented.toGrammar.production? name index) ∧
      second.automaton.states = first.automaton.states.map (LR0.ItemSet.relocate place) ∧
      second.automaton.transitions = first.automaton.transitions) ∧
    (∀ table other, first.analysis.ll1 = .ok table → second.analysis.ll1 = .ok other →
      ∀ input, other.parse? input = table.parse? input) ∧
    (∀ tables other, first.analysis.slr1 = .ok tables → second.analysis.slr1 = .ok other →
      ∀ input, other.parse? input = tables.parse? input) := by
  have firstFormed := firstBuilt.wellFormed
  have secondFormed := secondBuilt.wellFormed
  obtain ⟨place, relocated⟩ := reordering.exists_relocated
  obtain ⟨augmentedPlace, augmentedRelocated, startStays⟩ :=
    reordering.exists_relocated_augmented firstFormed secondFormed
  have sameFollow := relocated.follow_get_eq firstFormed secondFormed
  refine ⟨?_, ?_, ?_, ?_, ?_, ?_, ?_, ?_⟩
  · exact reordering.first_get?_eq firstFormed secondFormed
  · exact relocated.ofSequence_eq firstFormed secondFormed
  · exact reordering.follow_get?_eq firstFormed secondFormed
  · exact relocated.isLL1_eq firstFormed secondFormed
  · exact relocated.isSLR1_eq firstFormed secondFormed
  · exact ⟨augmentedPlace, augmentedRelocated.production?,
      LR0.ofGrammar_relocate augmentedRelocated startStays⟩
  · intro table other ok otherOk input
    rw [LL1.Table.parse?_relocate relocated (LL1.Table.fits_of_built firstBuilt ok)
      (LL1.Table.fits_of_built secondBuilt otherOk)]
  · intro tables other ok otherOk input
    rw [SLR1.Tables.parse?_relocate augmentedRelocated startStays sameFollow
      (SLR1.Tables.fits_of_built firstBuilt ok) (SLR1.Tables.fits_of_built secondBuilt otherOk)]

def chains : Grammar :=
  .ofRules {}
    [⟨"S", [⟨[.nonterminal "A", .terminal "b", .nonterminal "S"]⟩, ⟨[]⟩]⟩,
      ⟨"A", [⟨[.terminal "c", .nonterminal "A"]⟩, ⟨[.terminal "d"]⟩]⟩]

def chainsReordered : Grammar :=
  .ofRules {}
    [⟨"A", [⟨[.terminal "d"]⟩, ⟨[.terminal "c", .nonterminal "A"]⟩]⟩,
      ⟨"S", [⟨[]⟩, ⟨[.nonterminal "A", .terminal "b", .nonterminal "S"]⟩]⟩]

theorem built_chains : chains.Built :=
  .build (.add "A" [[.terminal "c", .nonterminal "A"], [.terminal "d"]]
    (.add "S" [[.nonterminal "A", .terminal "b", .nonterminal "S"], []] (.empty {}))) rfl

theorem built_chainsReordered : chainsReordered.Built :=
  .build (.add "S" [[], [.nonterminal "A", .terminal "b", .nonterminal "S"]]
    (.add "A" [[.terminal "d"], [.terminal "c", .nonterminal "A"]] (.empty {}))) rfl

theorem reorderingOf_chains : chains.ReorderingOf chainsReordered where
  conventions := rfl
  names := by
    intro name
    simp [nonterminals, ofRules, chains, chainsReordered, or_comm]
  alternatives := by
    intro name
    by_cases isStart : "S" = name
    · subst isStart
      exact .swap _ _ []
    · by_cases isChain : "A" = name
      · subst isChain
        exact .swap _ _ []
      · simp [productions, rule?_eq_find?, ofRules, chains, chainsReordered, isStart, isChain]

theorem chains_classes : chains.analysis.isLL1 = true ∧ chains.analysis.isSLR1 = true := by
  decide +kernel

theorem reordering_keeps_chains : chainsReordered.analysis.isSLR1 = true ∧
    chainsReordered.follow.get? "A" = chains.follow.get? "A" ∧
    chainsReordered.automaton.transitions = chains.automaton.transitions ∧
    (∃ table other, chains.analysis.ll1 = .ok table ∧ chainsReordered.analysis.ll1 = .ok other ∧
      ∀ input, other.parse? input = table.parse? input) ∧
    ∃ tables other, chains.analysis.slr1 = .ok tables ∧ chainsReordered.analysis.slr1 = .ok other ∧
      ∀ input, other.parse? input = tables.parse? input := by
  obtain ⟨_, _, follow, sameLL1, sameSLR1, ⟨_, _, _, transitions⟩, predictive, shiftReduce⟩ :=
    reordering_keeps built_chains built_chainsReordered reorderingOf_chains
  obtain ⟨table, ok⟩ := exists_eq_ok_of_isOk chains_classes.1
  obtain ⟨other, otherOk⟩ := exists_eq_ok_of_isOk (sameLL1.trans chains_classes.1)
  obtain ⟨tables, tablesOk⟩ := exists_eq_ok_of_isOk chains_classes.2
  obtain ⟨others, othersOk⟩ := exists_eq_ok_of_isOk (sameSLR1.trans chains_classes.2)
  exact ⟨sameSLR1.trans chains_classes.2, follow "A", transitions,
    ⟨table, other, ok, otherOk, predictive table other ok otherOk⟩,
    tables, others, tablesOk, othersOk, shiftReduce tables others tablesOk othersOk⟩

end Grammar

end Lookahead
