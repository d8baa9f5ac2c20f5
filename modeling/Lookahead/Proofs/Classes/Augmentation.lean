import Lookahead.Proofs.Classes.Agreement
import Lookahead.Proofs.SLR1.Deciding
import Lookahead.Proofs.SLR1.Moves

/-!
# Augmented grammars as ordinary ones

An augmented grammar agrees with the grammar on every name but its start symbol,
which derives nothing but the old start symbol and stands in no body.  So the sets
stay the same, the fresh start symbol is followed by the end marker alone, and what
called for acceptance calls for the reduction to the fresh start symbol.  The
grammars are in the same classes, and their parsers accept the same inputs.
-/

namespace Lookahead

namespace Grammar

variable {grammar : Grammar} {symbols last : List Symbol} {name : Name} {symbol : Symbol}

/-- Augmenting changes no alternatives but those of the fresh start symbol. -/
theorem WellFormed.agreeOn_augmented (wellFormed : grammar.WellFormed) :
    AgreeOn (· ≠ grammar.freshStart) grammar.augmented.toGrammar grammar where
  productions := fun _ other => productions_augmented other
  closed := by
    rintro name index production _ found other inside rfl
    exact wellFormed.freshStart_not_mem_body found inside

theorem Derives.augmented (chain : grammar.Derives symbols last) :
    grammar.augmented.toGrammar.Derives symbols last :=
  chain.of_productions fun _ index _ found => ⟨index, production?_augmented_of_production? found⟩

theorem derives_freshStart (grammar : Grammar) :
    grammar.augmented.toGrammar.Derives [.nonterminal grammar.freshStart]
      [.nonterminal grammar.start] :=
  .of_production (production?_freshStart grammar)

theorem opensApart_freshStart (grammar : Grammar) :
    grammar.augmented.toGrammar.OpensApart grammar.freshStart := by
  intro lookahead index other one another found otherFound _ _
  rw [eq_zero_of_production?_freshStart index one found,
    eq_zero_of_production?_freshStart other another otherFound]

/-- The fresh start symbol stands in what it derives itself in no steps, and nowhere else. -/
theorem WellFormed.eq_nil_of_derives_freshStart (wellFormed : grammar.WellFormed) {root : Name}
    {before after : List Symbol} (chain : grammar.augmented.toGrammar.Derives [.nonterminal root]
      (before ++ .nonterminal grammar.freshStart :: after)) : before = [] ∧ after = [] := by
  by_cases isFresh : root = grammar.freshStart
  · rw [isFresh] at chain
    rcases wellFormed.derives_of_augmented chain with isStart | inner
    · obtain ⟨nothingBefore, _, nothingAfter⟩ := eq_nil_of_append_cons_eq_singleton isStart
      exact ⟨nothingBefore, nothingAfter⟩
    · exact absurd rfl (wellFormed.ne_freshStart_of_derives inner)
  · obtain ⟨_, within⟩ :=
      wellFormed.agreeOn_augmented.derives (within_singleton.mpr isFresh) chain
    exact absurd rfl (within grammar.freshStart (by simp))

section Follows

theorem Follows.augmented (follows : grammar.Follows name symbol) :
    grammar.augmented.toGrammar.Follows name symbol := by
  cases follows with
  | endMarker before chain =>
      exact .endMarker before ((derives_freshStart grammar).trans chain.augmented)
  | terminal before after known chain =>
      exact .terminal before after (List.mem_cons_of_mem _ known) chain.augmented

/-- What follows an old name in the augmented grammar follows it in the grammar. -/
theorem Follows.of_augmented (wellFormed : grammar.WellFormed) (other : name ≠ grammar.freshStart)
    (follows : grammar.augmented.toGrammar.Follows name symbol) : grammar.Follows name symbol := by
  have ofFresh : ∀ before after, grammar.augmented.toGrammar.Derives
      [.nonterminal grammar.freshStart] (before ++ .nonterminal name :: after) →
      grammar.Derives [.nonterminal grammar.start] (before ++ .nonterminal name :: after) := by
    intro before after chain
    rcases wellFormed.derives_of_augmented chain with isStart | inner
    · obtain ⟨_, isName, _⟩ := eq_nil_of_append_cons_eq_singleton isStart
      exact absurd (Symbol.nonterminal.inj isName) other
    · exact inner
  cases follows with
  | endMarker before chain => exact .endMarker before (ofFresh before [] chain)
  | @terminal root _ before after known chain =>
      by_cases isFresh : root = grammar.freshStart
      · rw [isFresh] at chain
        exact .terminal before after wellFormed.start_defined (ofFresh before _ chain)
      · have inner := (wellFormed.agreeOn_augmented.derives (within_singleton.mpr isFresh) chain).1
        rcases List.mem_cons.mp known with here | old
        · exact absurd here isFresh
        · exact .terminal before after old inner

variable (wellFormed : grammar.WellFormed)
include wellFormed

theorem follow_get_augmented (other : name ≠ grammar.freshStart) :
    grammar.augmented.toGrammar.follow.get name = grammar.follow.get name := by
  apply SortedSet.ext
  intro symbol
  rw [mem_follow_iff wellFormed.augmented, mem_follow_iff wellFormed]
  exact ⟨.of_augmented wellFormed other, .augmented⟩

/-- Nothing but the end marker follows the fresh start symbol. -/
theorem mem_follow_freshStart_iff :
    symbol ∈ grammar.augmented.toGrammar.follow.get grammar.freshStart ↔ symbol = .endMarker := by
  rw [mem_follow_iff wellFormed.augmented]
  constructor
  · intro follows
    cases follows with
    | endMarker => rfl
    | terminal before after known chain =>
        obtain ⟨_, never⟩ := wellFormed.eq_nil_of_derives_freshStart chain
        exact absurd never (List.cons_ne_nil _ _)
  · rintro rfl
    exact .endMarker [] (.refl _)

end Follows

section Sets

variable (wellFormed : grammar.WellFormed)
include wellFormed

theorem first_get?_augmented (other : symbol ≠ .nonterminal grammar.freshStart) :
    grammar.augmented.toGrammar.firstSets.get? symbol = grammar.firstSets.get? symbol := by
  cases symbol with
  | terminal name =>
      have sameTerminals : grammar.augmented.toGrammar.firstSets.terminals =
          grammar.firstSets.terminals := terminals_augmented grammar
      rw [FirstSets.get?, FirstSets.get?, sameTerminals]
  | nonterminal name =>
      have old : name ≠ grammar.freshStart := fun same => other (congrArg _ same)
      rw [get?_nonterminal_firstSets_eq_ite, get?_nonterminal_firstSets_eq_ite,
        wellFormed.agreeOn_augmented.ofSequence_eq wellFormed.augmented wellFormed
          (within_singleton.mpr old)]
      simp [old]
  | epsilon => rfl
  | endMarker => rfl

theorem follow_get?_augmented (other : name ≠ grammar.freshStart) :
    grammar.augmented.toGrammar.follow.get? name = grammar.follow.get? name := by
  rw [get?_follow_eq_ite wellFormed, get?_follow_eq_ite wellFormed.augmented,
    follow_get_augmented wellFormed other]
  simp [other]

/-- The fresh start symbol has one alternative, and the others keep theirs. -/
theorem isLL1_augmented_iff :
    grammar.augmented.toGrammar.analysis.isLL1 = true ↔ grammar.analysis.isLL1 = true := by
  have outside : ∀ name, ¬ name ≠ grammar.freshStart → grammar.OpensApart name := by
    intro name isFresh
    exact .of_not_mem (Decidable.not_not.mp isFresh ▸ freshStart_not_mem_nonterminals grammar)
  have freshApart : ∀ name, ¬ name ≠ grammar.freshStart →
      grammar.augmented.toGrammar.OpensApart name := by
    intro name isFresh
    exact Decidable.not_not.mp isFresh ▸ opensApart_freshStart grammar
  have same := wellFormed.agreeOn_augmented.isLL1_iff wellFormed.augmented wellFormed
    (fun _ => follow_get_augmented wellFormed) outside
  exact same.trans (and_iff_left freshApart)

end Sets

end Grammar

namespace SLR1

variable {grammar : Grammar} {word : List Symbol} {lookahead : Symbol} {move : Move}

/-- In the augmented grammar the start symbol is not accepted but reduced. -/
def Move.augment (freshStart : Name) : Move → Move
  | .shift => .shift
  | .reduce nonterminal production => .reduce nonterminal production
  | .accept => .reduce freshStart 0

theorem CalledFor.augmented (wellFormed : grammar.WellFormed)
    (called : CalledFor grammar word lookahead move) :
    CalledFor grammar.augmented.toGrammar word lookahead (move.augment grammar.freshStart) := by
  cases called with
  | shift outer found splits isInput =>
      exact .shift ((LR0.leftContext_augmented_iff wellFormed).mpr (.inr outer))
        (Grammar.production?_augmented_of_production? found) splits isInput
  | reduce outer found follows =>
      refine .reduce ((LR0.leftContext_augmented_iff wellFormed).mpr (.inr outer))
        (Grammar.production?_augmented_of_production? found) ?_
      rw [Grammar.follow_get_augmented wellFormed (outer.ne_freshStart wellFormed)]
      exact follows
  | accept =>
      have reduced : CalledFor grammar.augmented.toGrammar ([] ++ [.nonterminal grammar.start])
          .endMarker (.reduce grammar.freshStart 0) :=
        .reduce .start (Grammar.production?_freshStart grammar)
          ((Grammar.mem_follow_freshStart_iff wellFormed).mpr rfl)
      exact reduced

/-- The augmented grammar calls for acceptance of its own start symbol, and for the grammar's moves. -/
theorem calledFor_of_augmented (wellFormed : grammar.WellFormed)
    (called : CalledFor grammar.augmented.toGrammar word lookahead move) :
    (word = [.nonterminal grammar.freshStart] ∧ move = .accept) ∨
      ∃ inner, CalledFor grammar word lookahead inner ∧
        move = inner.augment grammar.freshStart := by
  cases called with
  | shift outer found splits isInput =>
      rcases (LR0.leftContext_augmented_iff wellFormed).mp outer with ⟨_, isFresh⟩ | inner
      · rw [isFresh, Grammar.production?_augmented_freshStart] at found
        rw [found.2] at splits
        obtain ⟨_, isStart, _⟩ := Grammar.eq_nil_of_append_cons_eq_singleton splits.symm
        rw [isStart] at isInput
        cases isInput
      · rw [Grammar.production?_augmented (inner.ne_freshStart wellFormed)] at found
        exact .inr ⟨.shift, .shift inner found splits isInput, rfl⟩
  | reduce outer found follows =>
      rcases (LR0.leftContext_augmented_iff wellFormed).mp outer with ⟨isNil, isFresh⟩ | inner
      · rw [isFresh, Grammar.production?_augmented_freshStart] at found
        rw [isFresh, Grammar.mem_follow_freshStart_iff wellFormed] at follows
        rw [isNil, found.2, follows, isFresh, found.1]
        exact .inr ⟨.accept, .accept, rfl⟩
      · have old := inner.ne_freshStart wellFormed
        rw [Grammar.production?_augmented old] at found
        rw [Grammar.follow_get_augmented wellFormed old] at follows
        exact .inr ⟨_, .reduce inner found follows, rfl⟩
  | accept => exact .inl ⟨rfl, rfl⟩

theorem CalledFor.ne_freshStart (wellFormed : grammar.WellFormed) {name : Name} {index : Nat}
    (called : CalledFor grammar word lookahead (.reduce name index)) : name ≠ grammar.freshStart := by
  cases called with
  | reduce outer => exact outer.ne_freshStart wellFormed

/-- Acceptance is not taken for a reduction that is called for. -/
theorem CalledFor.eq_of_augment_eq (wellFormed : grammar.WellFormed) {one other : Move}
    (called : CalledFor grammar word lookahead one)
    (otherCalled : CalledFor grammar word lookahead other)
    (same : one.augment grammar.freshStart = other.augment grammar.freshStart) : one = other := by
  cases one with
  | shift =>
      cases other with
      | shift => rfl
      | reduce | accept => exact Move.noConfusion same
  | reduce name index =>
      cases other with
      | shift => exact Move.noConfusion same
      | reduce => exact same
      | accept => exact absurd (Move.reduce.inj same).1 (called.ne_freshStart wellFormed)
  | accept =>
      cases other with
      | shift => exact Move.noConfusion same
      | reduce => exact absurd (Move.reduce.inj same).1.symm (otherCalled.ne_freshStart wellFormed)
      | accept => rfl

/-- No move but acceptance is called for after the fresh start symbol, and no other move clashes. -/
theorem isSLR1_augmented_iff (wellFormed : grammar.WellFormed) :
    grammar.augmented.toGrammar.analysis.isSLR1 = true ↔ grammar.analysis.isSLR1 = true := by
  constructor
  · exact isSLR1_of_calledFor wellFormed wellFormed.augmented (Move.augment grammar.freshStart)
      (fun _ _ _ called => called.augmented wellFormed)
      fun _ _ _ _ called otherCalled => called.eq_of_augment_eq wellFormed otherCalled
  · intro isSLR1
    have unique := (isSLR1_iff wellFormed).mp isSLR1
    have notFresh : ∀ word lookahead move, CalledFor grammar word lookahead move →
        word ≠ [.nonterminal grammar.freshStart] := by
      rintro _ lookahead move called rfl
      exact Grammar.not_known_freshStart grammar (called.known wellFormed _ List.mem_cons_self)
    refine (isSLR1_iff wellFormed.augmented).mpr fun word lookahead one other called otherCalled => ?_
    rcases calledFor_of_augmented wellFormed called with
      ⟨isFresh, isAccept⟩ | ⟨inner, innerCalled, isOne⟩
    · rcases calledFor_of_augmented wellFormed otherCalled with
        ⟨_, alsoAccept⟩ | ⟨inner, innerCalled, _⟩
      · rw [isAccept, alsoAccept]
      · exact absurd isFresh (notFresh _ _ _ innerCalled)
    · rcases calledFor_of_augmented wellFormed otherCalled with
        ⟨isFresh, _⟩ | ⟨otherInner, otherInnerCalled, isOther⟩
      · exact absurd isFresh (notFresh _ _ _ innerCalled)
      · rw [isOne, isOther, unique word lookahead _ _ innerCalled otherInnerCalled]

/-- The FOLLOW set of the start symbol is not used. -/
theorem stateRow_congr {first second : FollowSets}
    (same : ∀ name, name ≠ grammar.start → first.get name = second.get name) :
    stateRow grammar first = stateRow grammar second := by
  have sameClaims : itemClaims grammar first = itemClaims grammar second := by
    funext item
    unfold itemClaims
    split
    · split
      · rfl
      · rename_i notStart
        rw [same _ notStart]
    · rfl
  funext state transitions
  rw [stateRow, stateRow, sameClaims]

/-- The tables that are built with the FOLLOW sets of the grammar are those of the augmented one's. -/
theorem build_follow_augmented (wellFormed : grammar.WellFormed) :
    Tables.build grammar.automaton grammar.augmented grammar.augmented.toGrammar.follow =
      grammar.analysis.slr1 := by
  have sameRows : stateRow grammar.augmented.toGrammar grammar.augmented.toGrammar.follow =
      stateRow grammar.augmented.toGrammar grammar.follow :=
    stateRow_congr fun _ other => Grammar.follow_get_augmented wellFormed other
  rw [Analysis.slr1, Tables.build, Tables.build, Tables.ofAutomaton, Tables.ofAutomaton, sameRows]
  rfl

end SLR1

namespace Grammar

variable {grammar : Grammar}

/-- The fresh start symbol yields the words of the old one. -/
theorem accepts_augmented_iff (wellFormed : grammar.WellFormed) (input : List Symbol) :
    grammar.augmented.toGrammar.Accepts input ↔ grammar.Accepts input := by
  have same : ∀ word, grammar.augmented.toGrammar.Yields [.nonterminal grammar.freshStart] word ↔
      grammar.Yields [.nonterminal grammar.start] word := by
    intro word
    rw [yields_iff, yields_iff]
    constructor
    · rintro ⟨chain, inputs⟩
      rcases wellFormed.derives_of_augmented chain with isStart | inner
      · exact absurd (inputs _ (isStart ▸ List.mem_cons_self)) (by simp [Symbol.isInput])
      · exact ⟨inner, inputs⟩
    · rintro ⟨chain, inputs⟩
      exact ⟨(derives_freshStart grammar).trans chain.augmented, inputs⟩
  rw [Accepts, Accepts, start_augmented]
  simp only [same]

/--
Augmenting changes nothing but the start.  The new start symbol is the old one with the fewest
apostrophes that make a new name; all other symbols keep their FIRST and FOLLOW sets, so that the
shift-reduce tables are the same with the FOLLOW sets of either grammar.  As an ordinary grammar the
augmented one is in the same classes, and its parsers accept the same inputs.
-/
theorem augmented_keeps (built : grammar.Built) :
    (∃ count, 1 ≤ count ∧ grammar.augmented.toGrammar.start = primed grammar.start count ∧
      primed grammar.start count ∉ grammar.nonterminals ∧
      primed grammar.start count ∉ grammar.terminals ∧
      ∀ fewer, 1 ≤ fewer → fewer < count →
        primed grammar.start fewer ∈ grammar.nonterminals ∨
          primed grammar.start fewer ∈ grammar.terminals) ∧
    (∀ symbol, symbol ≠ .nonterminal grammar.freshStart →
      grammar.augmented.toGrammar.firstSets.get? symbol = grammar.firstSets.get? symbol) ∧
    (∀ name, name ≠ grammar.freshStart →
      grammar.augmented.toGrammar.follow.get? name = grammar.follow.get? name) ∧
    SLR1.Tables.build grammar.automaton grammar.augmented grammar.augmented.toGrammar.follow =
      grammar.analysis.slr1 ∧
    grammar.augmented.toGrammar.analysis.isLL1 = grammar.analysis.isLL1 ∧
    grammar.augmented.toGrammar.analysis.isSLR1 = grammar.analysis.isSLR1 ∧
    (∀ table other, grammar.analysis.ll1 = .ok table →
      grammar.augmented.toGrammar.analysis.ll1 = .ok other →
      ∀ input, other.parse? input = some (.ok ()) ↔ table.parse? input = some (.ok ())) ∧
    (∀ tables other, grammar.analysis.slr1 = .ok tables →
      grammar.augmented.toGrammar.analysis.slr1 = .ok other →
      ∀ input, other.parse? input = some (.ok ()) ↔ tables.parse? input = some (.ok ())) := by
  have wellFormed := built.wellFormed
  refine ⟨?_, ?_, ?_, ?_, ?_, ?_, ?_, ?_⟩
  · obtain ⟨count, positive, isPrimed, passed⟩ := exists_freshStart_eq_primed grammar
    rw [start_augmented, isPrimed]
    refine ⟨count, positive, rfl, ?_, ?_, passed⟩
    · exact isPrimed ▸ freshStart_not_mem_nonterminals grammar
    · exact isPrimed ▸ freshStart_not_mem_terminals grammar
  · exact fun symbol other => first_get?_augmented wellFormed other
  · exact fun name other => follow_get?_augmented wellFormed other
  · exact SLR1.build_follow_augmented wellFormed
  · exact Bool.eq_iff_iff.mpr (isLL1_augmented_iff wellFormed)
  · exact Bool.eq_iff_iff.mpr (SLR1.isSLR1_augmented_iff wellFormed)
  · intro table other ok otherOk input
    rw [(LL1.Table.fits_of_built built ok).parse?_ok_iff,
      (LL1.Table.fits_of_built built.augmented otherOk).parse?_ok_iff,
      accepts_augmented_iff wellFormed]
  · intro tables other ok otherOk input
    rw [(SLR1.Tables.fits_of_built built ok).parse?_ok_iff,
      (SLR1.Tables.fits_of_built built.augmented otherOk).parse?_ok_iff,
      accepts_augmented_iff wellFormed]

/-- A grammar in which a nonterminal has one apostrophe more than the start, and a terminal two. -/
def primedNames : Grammar :=
  .ofRules {} [⟨"S", [⟨[.nonterminal "S'", .terminal "S''"]⟩]⟩, ⟨"S'", [⟨[.terminal "a"]⟩, ⟨[]⟩]⟩]

theorem built_primedNames : primedNames.Built :=
  .build (.add "S'" [[.terminal "a"], []]
    (.add "S" [[.nonterminal "S'", .terminal "S''"]] (.empty {}))) rfl

theorem primedNames_classes : primedNames.analysis.isLL1 = true ∧ primedNames.analysis.isSLR1 = true := by
  decide +kernel

theorem augmented_keeps_primedNames :
    primedNames.augmented.toGrammar.start = "S'''" ∧
      primedNames.augmented.toGrammar.follow.get? "S'" = primedNames.follow.get? "S'" ∧
      ∃ tables other, primedNames.analysis.slr1 = .ok tables ∧
        primedNames.augmented.toGrammar.analysis.slr1 = .ok other ∧
        ∀ input, other.parse? input = some (.ok ()) ↔ tables.parse? input = some (.ok ()) := by
  obtain ⟨_, _, follow, _, _, sameClass, _, accepts⟩ := augmented_keeps built_primedNames
  have isStart : primedNames.freshStart = "S'''" := by decide +kernel
  obtain ⟨tables, ok⟩ := exists_eq_ok_of_isOk primedNames_classes.2
  obtain ⟨other, otherOk⟩ := exists_eq_ok_of_isOk (sameClass.trans primedNames_classes.2)
  refine ⟨isStart, follow "S'" ?_, tables, other, ok, otherOk, accepts tables other ok otherOk⟩
  rw [isStart]
  decide

end Grammar

end Lookahead
