import Lookahead.Analysis
import Lookahead.Proofs.Grammar.Augmented
import Lookahead.Proofs.LR0.Numbers
import Lookahead.Proofs.Sets.Follow

/-!
# Cells of shift-reduce tables

In tables without conflicts, what a state does after a word is settled by the
items that are valid there: it shifts what comes after a dot, reduces by what
is complete, and goes wherever the automaton goes.
-/

namespace Lookahead.SLR1

theorem mem_shifts {transitions : List (Symbol × Nat)} {lookahead : Symbol} {action : Action} :
    (lookahead, action) ∈ shifts transitions ↔ (∀ name, lookahead ≠ .nonterminal name) ∧
      ∃ number, action = .shift number ∧ (lookahead, number) ∈ transitions := by
  simp only [shifts, List.mem_filterMap, Prod.exists]
  constructor
  · rintro ⟨symbol, number, inside, same⟩
    split at same
    · exact absurd same (by simp)
    · rename_i notNonterminal
      simp only [Option.some.injEq, Prod.mk.injEq] at same
      obtain ⟨isSymbol, isShift⟩ := same
      subst isSymbol
      exact ⟨notNonterminal, number, isShift.symm, inside⟩
  · rintro ⟨notNonterminal, number, isShift, inside⟩
    refine ⟨lookahead, number, inside, ?_⟩
    split
    · rename_i name
      exact absurd rfl (notNonterminal name)
    · rw [isShift]

theorem mem_gotos {transitions : List (Symbol × Nat)} {name : Name} {number : Nat} :
    (name, number) ∈ gotos transitions ↔ (.nonterminal name, number) ∈ transitions := by
  simp only [gotos, List.mem_filterMap, Option.map_eq_some_iff, Symbol.nonterminal?_eq_some_iff,
    Prod.exists, Prod.mk.injEq]
  constructor
  · rintro ⟨symbol, other, inside, otherName, isNonterminal, sameName, sameNumber⟩
    subst isNonterminal sameName sameNumber
    exact inside
  · intro inside
    exact ⟨.nonterminal name, number, inside, name, rfl, rfl, rfl⟩

theorem not_mem_itemClaims_shift {grammar : Grammar} {follow : FollowSets} {item : LR0.Item}
    {lookahead : Symbol} {next : Nat} : (lookahead, .shift next) ∉ itemClaims grammar follow item := by
  unfold itemClaims
  split
  · split
    · simp
    · simp
  · simp

theorem isComplete_of_mem_itemClaims {grammar : Grammar} {follow : FollowSets} {item : LR0.Item}
    {lookahead : Symbol} {action : Action}
    (claimed : (lookahead, action) ∈ itemClaims grammar follow item) :
    item.isComplete grammar = true := by
  unfold itemClaims at claimed
  split at claimed
  · assumption
  · exact absurd claimed List.not_mem_nil

/-- An item claims a cell for one action. -/
theorem eq_of_mem_itemClaims {grammar : Grammar} {follow : FollowSets} {item : LR0.Item}
    {lookahead : Symbol} {one other : Action}
    (claimed : (lookahead, one) ∈ itemClaims grammar follow item)
    (otherClaimed : (lookahead, other) ∈ itemClaims grammar follow item) : one = other := by
  have complete := isComplete_of_mem_itemClaims claimed
  rw [itemClaims, if_pos complete] at claimed otherClaimed
  split at claimed
  · rename_i isStart
    rw [if_pos isStart] at otherClaimed
    rw [(Prod.mk.inj (List.mem_singleton.mp claimed)).2,
      (Prod.mk.inj (List.mem_singleton.mp otherClaimed)).2]
  · rename_i notStart
    rw [if_neg notStart] at otherClaimed
    obtain ⟨_, _, isOne⟩ := List.mem_map.mp claimed
    obtain ⟨_, _, isOther⟩ := List.mem_map.mp otherClaimed
    rw [← (Prod.mk.inj isOne).2, ← (Prod.mk.inj isOther).2]

/-- The claims in the row of a state are its shifts and what its items claim. -/
theorem mem_claims_stateRow {grammar : Grammar} {follow : FollowSets} {state : LR0.ItemSet}
    {transitions : List (Symbol × Nat)} {lookahead : Symbol} {action : Action} :
    (lookahead, action) ∈ (stateRow grammar follow state transitions).actions.claims ↔
      (lookahead, action) ∈ shifts transitions ∨
        ∃ item ∈ state, (lookahead, action) ∈ itemClaims grammar follow item := by
  simp only [stateRow, List.mem_append, List.mem_flatMap, SortedSet.mem_toList]

namespace Tables

/-- Tables without conflicts, made of the sets and the automaton of a grammar. -/
structure Fits (tables : Tables) (grammar : Grammar) : Prop where
  wellFormed : grammar.WellFormed
  ok : build grammar.automaton grammar.augmented grammar.follow = .ok tables

variable {tables : Tables} {grammar : Grammar} {number : Nat}

abbrev Numbers (grammar : Grammar) (number : Nat) (state : LR0.ItemSet) : Prop :=
  (LR0.states grammar.augmented.toGrammar)[number]? = some state

abbrev transitions (grammar : Grammar) (state : LR0.ItemSet) : List (Symbol × Nat) :=
  LR0.Automaton.transitionsOf grammar.augmented.toGrammar
    (LR0.states grammar.augmented.toGrammar) state

abbrev claims (grammar : Grammar) (state : LR0.ItemSet) : List (Symbol × Action) :=
  (stateRow grammar.augmented.toGrammar grammar.follow state (transitions grammar state)).actions.claims

theorem mem_claims_shift_iff {state : LR0.ItemSet} {lookahead : Symbol} {next : Nat} :
    (lookahead, .shift next) ∈ claims grammar state ↔
      (∀ name, lookahead ≠ .nonterminal name) ∧ (lookahead, next) ∈ transitions grammar state := by
  rw [mem_claims_stateRow, mem_shifts]
  constructor
  · rintro (⟨notNonterminal, place, same, inside⟩ | ⟨item, _, claimed⟩)
    · cases same
      exact ⟨notNonterminal, inside⟩
    · exact absurd claimed not_mem_itemClaims_shift
  · rintro ⟨notNonterminal, inside⟩
    exact .inl ⟨notNonterminal, next, rfl, inside⟩

/-- The tables of a grammar have a row for each state of its automaton. -/
theorem rows_ofAutomaton (grammar : Grammar) (follow : FollowSets) :
    (ofAutomaton grammar.automaton grammar.augmented follow).rows =
      (LR0.states grammar.augmented.toGrammar).map fun state =>
        stateRow grammar.augmented.toGrammar follow state (transitions grammar state) := by
  simp only [ofAutomaton, Grammar.automaton, LR0.Automaton.ofGrammar]
  rw [List.map_zip_eq_zipWith, List.zipWith_map_right, List.zipWith_self]
  rfl

theorem conflicts_eq_nil_iff :
    tables.conflicts = [] ↔ ∀ row ∈ tables.rows, row.actions.contests = [] := by
  rw [conflicts, List.flatMap_eq_nil_iff]
  constructor
  · intro quiet row inside
    obtain ⟨place, listed⟩ := List.getElem?_of_mem inside
    have rowQuiet := quiet (row, place) (List.mem_zipIdx_iff_getElem?.mpr listed)
    exact Row.contests_eq_nil_of_clashes (List.map_eq_nil_iff.mp rowQuiet)
  · rintro quiet ⟨row, place⟩ listed
    have rowQuiet := quiet row (List.fst_mem_of_mem_zipIdx listed)
    exact List.map_eq_nil_iff.mpr (List.map_eq_nil_iff.mpr rowQuiet)

/-- Tables have no conflicts exactly when no state has two different claims on a cell. -/
theorem isOk_build_iff :
    (build grammar.automaton grammar.augmented grammar.follow).isOk = true ↔
      ∀ state ∈ LR0.states grammar.augmented.toGrammar, ∀ lookahead one other,
        (lookahead, one) ∈ claims grammar state → (lookahead, other) ∈ claims grammar state →
          one = other := by
  rw [build, isOk_checked_iff, conflicts_eq_nil_iff, rows_ofAutomaton]
  simp only [List.forall_mem_map, Row.contests_eq_nil_iff]

namespace Fits

theorem grammar_eq (fits : tables.Fits grammar) : tables.grammar = grammar.augmented := by
  rw [(eq_of_checked_eq_ok fits.ok).1]
  rfl

theorem rows_eq (fits : tables.Fits grammar) : tables.rows =
    (LR0.states grammar.augmented.toGrammar).map fun state =>
      stateRow grammar.augmented.toGrammar grammar.follow state (transitions grammar state) := by
  rw [(eq_of_checked_eq_ok fits.ok).1]
  exact rows_ofAutomaton grammar grammar.follow

theorem row_of_numbers (fits : tables.Fits grammar) {state : LR0.ItemSet}
    (numbered : Numbers grammar number state) : tables.rows[number]? = some
      (stateRow grammar.augmented.toGrammar grammar.follow state (transitions grammar state)) := by
  rw [fits.rows_eq, List.getElem?_map, numbered]
  rfl

theorem contests_eq_nil (fits : tables.Fits grammar) {row : StateRow} (inside : row ∈ tables.rows) :
    row.actions.contests = [] := by
  obtain ⟨isTables, quiet⟩ := eq_of_checked_eq_ok fits.ok
  exact conflicts_eq_nil_iff.mp quiet row (isTables ▸ inside)

/-- A cell holds every claim on it. -/
theorem action?_eq_some_iff (fits : tables.Fits grammar) {state : LR0.ItemSet}
    (numbered : Numbers grammar number state) (lookahead : Symbol) (action : Action) :
    tables.action? number lookahead = some action ↔
      (lookahead, action) ∈ claims grammar state := by
  have found := fits.row_of_numbers numbered
  have quiet := fits.contests_eq_nil (List.mem_of_getElem? found)
  rw [action?, found, Option.bind_some]
  constructor
  · exact Row.mem_claims_of_get? _ lookahead action
  · exact Row.get?_of_mem_claims _ quiet lookahead action

theorem goto?_eq_some_iff (fits : tables.Fits grammar) {state : LR0.ItemSet}
    (numbered : Numbers grammar number state) (name : Name) (next : Nat) :
    tables.goto? number name = some next ↔
      (.nonterminal name, next) ∈ transitions grammar state := by
  rw [goto?, fits.row_of_numbers numbered, Option.bind_some, ← mem_gotos]
  refine find?_map_snd_eq_some_iff fun one other oneListed otherListed => ?_
  exact LR0.Automaton.transition_unique (mem_gotos.mp oneListed) (mem_gotos.mp otherListed)

/-- No state shifts the end marker, which stands in no body. -/
theorem action?_endMarker_ne_shift (fits : tables.Fits grammar) (number next : Nat) :
    tables.action? number .endMarker ≠ some (.shift next) := by
  intro cell
  obtain ⟨row, found, _⟩ := Option.bind_eq_some_iff.mp cell
  rw [fits.rows_eq, List.getElem?_map] at found
  obtain ⟨state, numbered, _⟩ := Option.map_eq_some_iff.mp found
  obtain ⟨_, inside⟩ := mem_claims_shift_iff.mp ((fits.action?_eq_some_iff numbered _ _).mp cell)
  obtain ⟨isNext, _⟩ := LR0.Automaton.mem_transitionsOf.mp inside
  obtain ⟨item, _, atDot⟩ := (LR0.mem_nextSymbols _ _ _).mp isNext
  obtain ⟨production, inGrammar, listed⟩ := Option.bind_eq_some_iff.mp atDot
  exact fits.wellFormed.augmented.endMarker_not_mem_body inGrammar (List.mem_of_getElem? listed)

end Fits

section Valid

variable {word : List Symbol}

abbrev Stands (grammar : Grammar) (word : List Symbol) (number : Nat) : Prop :=
  Numbers grammar number (LR0.itemsAfter grammar.augmented.toGrammar word)

theorem validItem_of_mem {item : LR0.Item}
    (inside : item ∈ LR0.itemsAfter grammar.augmented.toGrammar word) :
    LR0.ValidItem grammar.augmented.toGrammar word item :=
  LR0.validItem_of_mem_itemsAfter
    (Grammar.production?_freshStart grammar) inside

theorem mem_nextSymbols_iff (symbol : Symbol) :
    symbol ∈ LR0.nextSymbols grammar.augmented.toGrammar
        (LR0.itemsAfter grammar.augmented.toGrammar word) ↔
      ∃ name index before rest,
        LR0.Valid grammar.augmented.toGrammar word name index before (symbol :: rest) :=
  LR0.mem_nextSymbols_itemsAfter (Grammar.production?_freshStart grammar)

/-- The complete items of a state, by their productions. -/
theorem exists_complete_iff (name : Name) (index : Nat) :
    (∃ item ∈ LR0.itemsAfter grammar.augmented.toGrammar word,
      item.isComplete grammar.augmented.toGrammar = true ∧ item.nonterminal = name ∧
        item.production = index) ↔
      ∃ body, LR0.Valid grammar.augmented.toGrammar word name index body [] := by
  constructor
  · rintro ⟨item, inside, complete, isName, isIndex⟩
    obtain ⟨before, rest, isDot, valid⟩ := validItem_of_mem inside
    rw [isName, isIndex] at valid
    simp only [LR0.Item.isComplete, isName, isIndex, valid.production, Production.length, isDot,
      List.length_append, decide_eq_true_eq] at complete
    have nothing : rest = [] := List.length_eq_zero_iff.mp (by omega)
    exact ⟨before, nothing ▸ valid⟩
  · rintro ⟨body, valid⟩
    refine ⟨_, valid.mem_itemsAfter, ?_, rfl, rfl⟩
    have found := valid.production
    rw [List.append_nil] at found
    simp [LR0.Item.isComplete, found, Production.length]

theorem mem_itemClaims_reduce {follow : FollowSets} {item : LR0.Item} {lookahead : Symbol}
    {name : Name} {index : Nat} :
    (lookahead, .reduce name index) ∈ itemClaims grammar follow item ↔
      item.isComplete grammar = true ∧ item.nonterminal = name ∧ item.production = index ∧
        name ≠ grammar.start ∧ lookahead ∈ follow.get name := by
  unfold itemClaims
  split
  · rename_i complete
    split
    · rename_i isStart
      simp only [List.mem_singleton, Prod.mk.injEq]
      constructor
      · rintro ⟨_, never⟩
        exact absurd never (by simp)
      · rintro ⟨_, isName, _, notStart, _⟩
        exact absurd (isName ▸ isStart) notStart
    · rename_i notStart
      simp only [List.mem_map, SortedSet.mem_toList, Prod.mk.injEq, Action.reduce.injEq]
      constructor
      · rintro ⟨symbol, inside, sameSymbol, isName, isIndex⟩
        subst sameSymbol isName isIndex
        exact ⟨complete, rfl, rfl, notStart, inside⟩
      · rintro ⟨_, isName, isIndex, _, inside⟩
        subst isName isIndex
        exact ⟨lookahead, inside, rfl, rfl, rfl⟩
  · rename_i incomplete
    constructor
    · exact fun never => absurd never List.not_mem_nil
    · exact fun all => absurd all.1 incomplete

theorem mem_itemClaims_accept {follow : FollowSets} {item : LR0.Item} {lookahead : Symbol} :
    (lookahead, .accept) ∈ itemClaims grammar follow item ↔
      item.isComplete grammar = true ∧ item.nonterminal = grammar.start ∧
        lookahead = .endMarker := by
  unfold itemClaims
  split
  · rename_i complete
    split
    · rename_i isStart
      simp [complete, isStart]
    · rename_i notStart
      simp [notStart]
  · rename_i incomplete
    simp [incomplete]

/-- A state claims reductions by what is complete after the word, on what follows its nonterminal. -/
theorem mem_claims_reduce_iff {lookahead : Symbol} {name : Name} {index : Nat} :
    (lookahead, .reduce name index) ∈
        claims grammar (LR0.itemsAfter grammar.augmented.toGrammar word) ↔
      name ≠ grammar.freshStart ∧ lookahead ∈ grammar.follow.get name ∧
        ∃ body, LR0.Valid grammar.augmented.toGrammar word name index body [] := by
  rw [mem_claims_stateRow, mem_shifts, ← exists_complete_iff]
  constructor
  · rintro (⟨_, _, never, _⟩ | ⟨item, inside, claimed⟩)
    · exact absurd never (by simp)
    · obtain ⟨complete, isName, isIndex, notStart, follows⟩ := mem_itemClaims_reduce.mp claimed
      exact ⟨notStart, follows, item, inside, complete, isName, isIndex⟩
  · rintro ⟨notStart, follows, item, inside, complete, isName, isIndex⟩
    exact .inr ⟨item, inside,
      mem_itemClaims_reduce.mpr ⟨complete, isName, isIndex, notStart, follows⟩⟩

/-- A state claims acceptance of the end marker after the start symbol. -/
theorem mem_claims_accept_iff {lookahead : Symbol} :
    (lookahead, .accept) ∈ claims grammar (LR0.itemsAfter grammar.augmented.toGrammar word) ↔
      lookahead = .endMarker ∧
        ∃ index body, LR0.Valid grammar.augmented.toGrammar word grammar.freshStart index body [] := by
  rw [mem_claims_stateRow, mem_shifts]
  constructor
  · rintro (⟨_, _, never, _⟩ | ⟨item, inside, claimed⟩)
    · exact absurd never (by simp)
    · obtain ⟨complete, isStart, isEnd⟩ := mem_itemClaims_accept.mp claimed
      exact ⟨isEnd, _, (exists_complete_iff _ _).mp ⟨item, inside, complete, isStart, rfl⟩⟩
  · rintro ⟨isEnd, index, complete⟩
    obtain ⟨item, inside, complete, isStart, _⟩ := (exists_complete_iff _ _).mpr complete
    exact .inr ⟨item, inside, mem_itemClaims_accept.mpr ⟨complete, isStart, isEnd⟩⟩

/-- A state goes on by whatever comes after a dot. -/
theorem exists_transition (stands : Stands grammar word number)
    {name : Name} {index : Nat} {before rest : List Symbol} {symbol : Symbol}
    (valid : LR0.Valid grammar.augmented.toGrammar word name index before (symbol :: rest)) :
    ∃ next, (symbol, next) ∈ transitions grammar
        (LR0.itemsAfter grammar.augmented.toGrammar word) ∧
      Stands grammar (word ++ [symbol]) next := by
  obtain ⟨next, inside⟩ := LR0.Automaton.exists_transition (List.mem_of_getElem? stands)
    ((mem_nextSymbols_iff symbol).mpr ⟨name, index, before, rest, valid⟩)
  refine ⟨next, inside, ?_⟩
  rw [Stands, LR0.itemsAfter_append_singleton]
  exact LR0.Automaton.getElem?_of_mem_transitionsOf inside

namespace Fits

/-- A state shifts the terminals that come after a dot. -/
theorem action?_shift_iff (fits : tables.Fits grammar) {state : LR0.ItemSet}
    (numbered : Numbers grammar number state) (lookahead : Symbol) (next : Nat) :
    tables.action? number lookahead = some (.shift next) ↔
      (∀ name, lookahead ≠ .nonterminal name) ∧ (lookahead, next) ∈ transitions grammar state :=
  (fits.action?_eq_some_iff numbered _ _).trans mem_claims_shift_iff

/-- A state reduces by what is complete after the word, on what follows its nonterminal. -/
theorem action?_reduce_iff (fits : tables.Fits grammar) (stands : Stands grammar word number)
    (lookahead : Symbol) (name : Name) (index : Nat) :
    tables.action? number lookahead = some (.reduce name index) ↔
      name ≠ grammar.freshStart ∧ lookahead ∈ grammar.follow.get name ∧
        ∃ body, LR0.Valid grammar.augmented.toGrammar word name index body [] :=
  (fits.action?_eq_some_iff stands _ _).trans mem_claims_reduce_iff

/-- A state accepts the end marker after the start symbol. -/
theorem action?_accept_iff (fits : tables.Fits grammar) (stands : Stands grammar word number)
    (lookahead : Symbol) :
    tables.action? number lookahead = some .accept ↔ lookahead = .endMarker ∧
      ∃ index body, LR0.Valid grammar.augmented.toGrammar word grammar.freshStart index body [] :=
  (fits.action?_eq_some_iff stands _ _).trans mem_claims_accept_iff

end Fits

end Valid

end Tables
end Lookahead.SLR1
