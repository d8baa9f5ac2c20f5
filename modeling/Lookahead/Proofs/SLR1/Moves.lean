import Lookahead.Proofs.LR0.Contexts
import Lookahead.Proofs.SLR1.Cells

/-!
# What calls for a move

The cells of shift-reduce tables hold numbers of states.  What a state claims is
told here without them: after a word of symbols, left contexts of the grammar call
for a shift, for a reduction or for acceptance.  The tables have no conflicts
exactly when no word and lookahead symbol call for two different moves.  So a
grammar whose moves are told apart in another one without conflicts has none.
-/

namespace Lookahead.SLR1

/-- What an action does, whatever the number of the state that it shifts to. -/
inductive Move where
  | shift
  | reduce (nonterminal : Name) (production : Nat)
  | accept
  deriving DecidableEq, Inhabited

end SLR1

def Action.move : Action → SLR1.Move
  | .shift _ => .shift
  | .reduce nonterminal production => .reduce nonterminal production
  | .accept => .accept

namespace SLR1

/--
A move is called for after a word: a shift of the input symbol behind a dot, a reduction by a whole
body on what follows its nonterminal, and acceptance of the start symbol at the end.
-/
inductive CalledFor (grammar : Grammar) : List Symbol → Symbol → Move → Prop where
  | shift {context before after : List Symbol} {lookahead : Symbol} {name : Name} {index : Nat}
      {production : Production} (outer : LR0.LeftContext grammar context name)
      (found : grammar.production? name index = some production)
      (splits : production.body = before ++ lookahead :: after)
      (isInput : lookahead.isInput = true) :
      CalledFor grammar (context ++ before) lookahead .shift
  | reduce {context : List Symbol} {lookahead : Symbol} {name : Name} {index : Nat}
      {production : Production} (outer : LR0.LeftContext grammar context name)
      (found : grammar.production? name index = some production)
      (follows : lookahead ∈ grammar.follow.get name) :
      CalledFor grammar (context ++ production.body) lookahead (.reduce name index)
  | accept : CalledFor grammar [.nonterminal grammar.start] .endMarker .accept

variable {grammar : Grammar} {word before rest : List Symbol} {lookahead : Symbol}

/-- What is valid in the augmented grammar is its start production, or in a context of the grammar. -/
theorem valid_augmented_iff (wellFormed : grammar.WellFormed) {name : Name} {index : Nat} :
    LR0.Valid grammar.augmented.toGrammar word name index before rest ↔
      (name = grammar.freshStart ∧ index = 0 ∧ before ++ rest = [.nonterminal grammar.start] ∧
        word = before) ∨
      grammar.production? name index = some ⟨before ++ rest⟩ ∧
        ∃ context, LR0.LeftContext grammar context name ∧ word = context ++ before := by
  rw [LR0.valid_iff_exists_leftContext Grammar.eq_zero_of_production?_freshStart]
  simp only [LR0.leftContext_augmented_iff wellFormed]
  constructor
  · rintro ⟨found, context, ⟨isNil, isFresh⟩ | outer, splits⟩
    · rw [isFresh, Grammar.production?_augmented_freshStart] at found
      refine .inl ⟨isFresh, found.1, congrArg Production.body found.2, ?_⟩
      rw [splits, isNil, List.nil_append]
    · rw [Grammar.production?_augmented (outer.ne_freshStart wellFormed)] at found
      exact .inr ⟨found, context, outer, splits⟩
  · rintro (⟨isFresh, isZero, isStart, splits⟩ | ⟨found, context, outer, splits⟩)
    · rw [isFresh, isZero, isStart]
      exact ⟨Grammar.production?_freshStart grammar, [], .inl ⟨rfl, rfl⟩, splits⟩
    · exact ⟨Grammar.production?_augmented_of_production? found, context, .inr outer, splits⟩

theorem CalledFor.known (wellFormed : grammar.WellFormed) {move : Move}
    (called : CalledFor grammar word lookahead move) : ∀ symbol ∈ word, grammar.Known symbol := by
  cases called with
  | shift outer found splits =>
      refine List.forall_mem_append.mpr ⟨outer.known wellFormed, fun symbol inside => ?_⟩
      exact Grammar.Known.of_body wellFormed found symbol (splits ▸ List.mem_append_left _ inside)
  | reduce outer found =>
      exact List.forall_mem_append.mpr
        ⟨outer.known wellFormed, Grammar.Known.of_body wellFormed found⟩
  | accept => exact Grammar.Known.start wellFormed

/-- Some item is valid after a word that calls for a move. -/
theorem CalledFor.exists_valid (wellFormed : grammar.WellFormed) {move : Move}
    (called : CalledFor grammar word lookahead move) :
    ∃ name index before rest,
      LR0.Valid grammar.augmented.toGrammar word name index before rest := by
  cases called with
  | @shift context before after _ name index production outer found splits =>
      have split := Grammar.production?_of_body found splits
      exact ⟨name, index, before, _, (valid_augmented_iff wellFormed).mpr
        (.inr ⟨split, context, outer, rfl⟩)⟩
  | @reduce context _ name index production outer found =>
      have whole := Grammar.production?_of_body found (List.append_nil production.body).symm
      exact ⟨name, index, production.body, [], (valid_augmented_iff wellFormed).mpr
        (.inr ⟨whole, context, outer, rfl⟩)⟩
  | accept =>
      exact ⟨_, _, _, [], (valid_augmented_iff wellFormed).mpr (.inl ⟨rfl, rfl, rfl, rfl⟩)⟩

/-- What the state after a word claims is called for. -/
theorem calledFor_of_mem_claims (wellFormed : grammar.WellFormed) {action : Action}
    (claimed : (lookahead, action) ∈
      Tables.claims grammar (LR0.itemsAfter grammar.augmented.toGrammar word)) :
    CalledFor grammar word lookahead action.move := by
  cases action with
  | shift next =>
      obtain ⟨notNonterminal, goes⟩ := Tables.mem_claims_shift_iff.mp claimed
      obtain ⟨name, index, before, rest, valid⟩ :=
        (Tables.mem_nextSymbols_iff lookahead).mp (LR0.Automaton.mem_transitionsOf.mp goes).1
      rcases (valid_augmented_iff wellFormed).mp valid with
        ⟨_, _, isStart, _⟩ | ⟨found, context, outer, splits⟩
      · obtain ⟨_, isNonterminal, _⟩ := Grammar.eq_nil_of_append_cons_eq_singleton isStart
        exact absurd isNonterminal (notNonterminal grammar.start)
      · have inside : lookahead ∈ before ++ lookahead :: rest := by simp
        rw [splits]
        refine .shift outer found rfl ?_
        rcases wellFormed.symbol_of_body found inside with ⟨_, isTerminal⟩ | ⟨name, isName, _⟩
        · rw [isTerminal]
          rfl
        · exact absurd isName (notNonterminal name)
  | reduce name index =>
      obtain ⟨notFresh, follows, body, valid⟩ := Tables.mem_claims_reduce_iff.mp claimed
      rcases (valid_augmented_iff wellFormed).mp valid with
        ⟨isFresh, _⟩ | ⟨found, context, outer, splits⟩
      · exact absurd isFresh notFresh
      · rw [List.append_nil] at found
        rw [splits]
        exact .reduce outer found follows
  | accept =>
      obtain ⟨isEnd, index, body, valid⟩ := Tables.mem_claims_accept_iff.mp claimed
      rcases (valid_augmented_iff wellFormed).mp valid with ⟨_, _, isStart, splits⟩ | ⟨found, _⟩
      · rw [List.append_nil] at isStart
        rw [isEnd, splits, isStart]
        exact .accept
      · exact absurd (Grammar.mem_nonterminals_of_production? found)
          (Grammar.freshStart_not_mem_nonterminals grammar)

/-- The state after a word claims whatever is called for. -/
theorem CalledFor.exists_claim (wellFormed : grammar.WellFormed) {number : Nat}
    (stands : Tables.Stands grammar word number) {move : Move}
    (called : CalledFor grammar word lookahead move) :
    ∃ action : Action, action.move = move ∧ (lookahead, action) ∈
      Tables.claims grammar (LR0.itemsAfter grammar.augmented.toGrammar word) := by
  cases called with
  | @shift context before after _ name index production outer found splits isInput =>
      have split := Grammar.production?_of_body found splits
      have valid := (valid_augmented_iff wellFormed).mpr (.inr ⟨split, context, outer, rfl⟩)
      obtain ⟨next, goes, _⟩ := Tables.exists_transition stands valid
      refine ⟨.shift next, rfl, Tables.mem_claims_shift_iff.mpr ⟨?_, goes⟩⟩
      rintro other rfl
      cases isInput
  | @reduce context _ name index production outer found follows =>
      have whole := Grammar.production?_of_body found (List.append_nil production.body).symm
      have valid := (valid_augmented_iff wellFormed).mpr (.inr ⟨whole, context, outer, rfl⟩)
      exact ⟨.reduce name index, rfl, Tables.mem_claims_reduce_iff.mpr
        ⟨outer.ne_freshStart wellFormed, follows, _, valid⟩⟩
  | accept =>
      exact ⟨.accept, rfl, Tables.mem_claims_accept_iff.mpr ⟨rfl, _, _,
        (valid_augmented_iff wellFormed).mpr (.inl ⟨rfl, rfl, rfl, rfl⟩)⟩⟩

/-- A state goes to one state only by a symbol, so a claim is told by its move. -/
theorem eq_of_move_eq {state : LR0.ItemSet} {one other : Action}
    (claimed : (lookahead, one) ∈ Tables.claims grammar state)
    (otherClaimed : (lookahead, other) ∈ Tables.claims grammar state)
    (same : one.move = other.move) : one = other := by
  cases one with
  | shift next =>
      cases other with
      | shift another =>
          obtain ⟨_, goes⟩ := Tables.mem_claims_shift_iff.mp claimed
          obtain ⟨_, goesAlso⟩ := Tables.mem_claims_shift_iff.mp otherClaimed
          rw [LR0.Automaton.transition_unique goes goesAlso]
      | reduce | accept => exact Move.noConfusion same
  | reduce name index =>
      cases other with
      | reduce otherName otherIndex =>
          obtain ⟨sameName, sameIndex⟩ := Move.reduce.inj same
          rw [sameName, sameIndex]
      | shift | accept => exact Move.noConfusion same
  | accept =>
      cases other with
      | accept => rfl
      | shift | reduce => exact Move.noConfusion same

/-- The tables of a grammar have no conflicts when one move at most is called for at a time. -/
theorem isSLR1_iff (wellFormed : grammar.WellFormed) : grammar.analysis.isSLR1 = true ↔
    ∀ word lookahead one other, CalledFor grammar word lookahead one →
      CalledFor grammar word lookahead other → one = other := by
  apply Tables.isOk_build_iff.trans
  constructor
  · intro quiet word lookahead one other called otherCalled
    obtain ⟨_, _, _, _, valid⟩ := called.exists_valid wellFormed
    obtain ⟨number, walked⟩ := LR0.Automaton.exists_walk?_of_valid valid
    have stands : Tables.Stands grammar word number := LR0.Automaton.getElem?_of_walk?_zero walked
    obtain ⟨action, isOne, claimed⟩ := called.exists_claim wellFormed stands
    obtain ⟨another, isOther, otherClaimed⟩ := otherCalled.exists_claim wellFormed stands
    rw [← isOne, ← isOther, quiet _ (List.mem_of_getElem? stands) lookahead _ _ claimed otherClaimed]
  · intro unique state inside lookahead one other claimed otherClaimed
    obtain ⟨word, isState⟩ := LR0.exists_itemsAfter_of_mem_states inside
    apply eq_of_move_eq claimed otherClaimed
    subst isState
    exact unique word lookahead _ _ (calledFor_of_mem_claims wellFormed claimed)
      (calledFor_of_mem_claims wellFormed otherClaimed)

def Move.relocate (place : Name → Nat → Nat) : Move → Move
  | .shift => .shift
  | .reduce nonterminal production => .reduce nonterminal (place nonterminal production)
  | .accept => .accept

theorem Move.relocate_injective {place : Name → Nat → Nat}
    (injective : ∀ name index other, place name index = place name other → index = other)
    {one other : Move} (same : one.relocate place = other.relocate place) : one = other := by
  cases one with
  | shift =>
      cases other with
      | shift => rfl
      | reduce | accept => exact Move.noConfusion same
  | reduce name index =>
      cases other with
      | reduce otherName otherIndex =>
          obtain ⟨sameName, samePlace⟩ := Move.reduce.inj same
          subst sameName
          rw [injective name index otherIndex samePlace]
      | shift | accept => exact Move.noConfusion same
  | accept =>
      cases other with
      | accept => rfl
      | shift | reduce => exact Move.noConfusion same

/-- Where the moves of a grammar are told apart in one without conflicts, it has none either. -/
theorem isSLR1_of_calledFor {other : Grammar} (wellFormed : grammar.WellFormed)
    (otherFormed : other.WellFormed) (lift : Move → Move)
    (called : ∀ word lookahead move, CalledFor grammar word lookahead move →
      CalledFor other word lookahead (lift move))
    (apart : ∀ word lookahead one another, CalledFor grammar word lookahead one →
      CalledFor grammar word lookahead another → lift one = lift another → one = another)
    (isSLR1 : other.analysis.isSLR1 = true) : grammar.analysis.isSLR1 = true := by
  have unique := (isSLR1_iff otherFormed).mp isSLR1
  refine (isSLR1_iff wellFormed).mpr fun word lookahead one another oneCalled anotherCalled => ?_
  apply apart word lookahead one another oneCalled anotherCalled
  exact unique word lookahead _ _ (called _ _ _ oneCalled) (called _ _ _ anotherCalled)

section Places

variable {other : Grammar} {place : Name → Nat → Nat} (sameStart : grammar.start = other.start)
  (keeps : ∀ context name index production, LR0.LeftContext grammar context name →
    grammar.production? name index = some production →
    other.production? name (place name index) = some production)
include sameStart keeps

/-- Left contexts are made of productions that are used in left contexts. -/
theorem leftContext_of_places {context : List Symbol} {name : Name}
    (outer : LR0.LeftContext grammar context name) : LR0.LeftContext other context name := by
  induction outer with
  | start =>
      rw [sameStart]
      exact .start
  | inside outer found splits ih => exact .inside ih (keeps _ _ _ _ outer found) splits

/--
A grammar has no conflicts when another one has none that holds the productions used in left contexts,
each at a place of its own, and in which no FOLLOW set is smaller.
-/
theorem isSLR1_of_places (wellFormed : grammar.WellFormed) (otherFormed : other.WellFormed)
    (injective : ∀ name index another, place name index = place name another → index = another)
    (smaller : ∀ context name, LR0.LeftContext grammar context name →
      grammar.follow.get name ⊆ other.follow.get name)
    (isSLR1 : other.analysis.isSLR1 = true) : grammar.analysis.isSLR1 = true := by
  refine isSLR1_of_calledFor wellFormed otherFormed (Move.relocate place) ?_
    (fun _ _ _ _ _ _ same => Move.relocate_injective injective same) isSLR1
  intro word lookahead move called
  cases called with
  | shift outer found splits isInput =>
      exact .shift (leftContext_of_places sameStart keeps outer) (keeps _ _ _ _ outer found) splits
        isInput
  | reduce outer found follows =>
      exact .reduce (leftContext_of_places sameStart keeps outer) (keeps _ _ _ _ outer found)
        (smaller _ _ outer lookahead follows)
  | accept =>
      rw [sameStart]
      exact .accept

end Places

end Lookahead.SLR1
