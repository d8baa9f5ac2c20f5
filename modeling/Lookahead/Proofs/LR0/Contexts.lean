import Lookahead.Analysis
import Lookahead.Proofs.Data.Keys
import Lookahead.Proofs.Grammar.Augmented
import Lookahead.Proofs.LR0.Numbers

/-!
# Left contexts

A left context of a nonterminal is what can stand before it when all that comes
later is still to be expanded.  The automaton can be walked along a word exactly
when the word is a left context with the front of a body behind it, and the state
that is reached holds one item for each way to divide the word so.
-/

namespace Lookahead

namespace LR0

/-- The number of the state that a word leads to, if there is a goto for each of its symbols. -/
def Automaton.walk? (automaton : Automaton) : Nat → List Symbol → Option Nat
  | state, [] => some state
  | state, symbol :: rest =>
      (automaton.goto? state symbol).bind fun next => automaton.walk? next rest

/-- The start has the empty left context; in a body, what is before a nonterminal is added. -/
inductive LeftContext (grammar : Grammar) : List Symbol → Name → Prop where
  | start : LeftContext grammar [] grammar.start
  | inside {context before after : List Symbol} {name other : Name} {index : Nat}
      {production : Production} (outer : LeftContext grammar context name)
      (found : grammar.production? name index = some production)
      (splits : production.body = before ++ .nonterminal other :: after) :
      LeftContext grammar (context ++ before) other

/-- A word is a left context of an item's nonterminal, with the body up to the dot behind it. -/
def ReachesDot (grammar : Grammar) (word : List Symbol) (item : Item) : Prop :=
  ∃ context production, LeftContext grammar context item.nonterminal ∧
    grammar.production? item.nonterminal item.production = some production ∧
    item.dot ≤ production.length ∧ word = context ++ production.body.take item.dot

variable {grammar : Grammar} {word context before rest : List Symbol} {name : Name} {index : Nat}

theorem Valid.exists_leftContext (valid : Valid grammar word name index before rest) :
    ∃ context, LeftContext grammar context name ∧ word = context ++ before := by
  induction valid with
  | start => exact ⟨[], .start, rfl⟩
  | @expand word before rest name other index place production valid found ih =>
      obtain ⟨context, outer, same⟩ := ih
      refine ⟨word, ?_, (List.append_nil word).symm⟩
      rw [same]
      exact .inside outer valid.production rfl
  | advance _ ih =>
      obtain ⟨context, outer, same⟩ := ih
      exact ⟨context, outer, by rw [same, List.append_assoc]⟩

/-- Every production of a nonterminal is valid after its left contexts, with the dot in front. -/
theorem LeftContext.valid
    (sole : ∀ index production, grammar.production? grammar.start index = some production → index = 0)
    (outer : LeftContext grammar context name) {production : Production}
    (found : grammar.production? name index = some production) :
    Valid grammar context name index [] production.body := by
  induction outer generalizing index production with
  | start =>
      have isFirst := sole index production found
      subst isFirst
      exact .start found
  | @inside context before after name other place body _ bodyFound splits ih =>
      have atFront := ih bodyFound
      rw [splits] at atFront
      exact .expand atFront.append found

/-- An item is valid exactly behind a left context of its nonterminal and what is before its dot. -/
theorem valid_iff_exists_leftContext
    (sole : ∀ index production, grammar.production? grammar.start index = some production → index = 0) :
    Valid grammar word name index before rest ↔
      grammar.production? name index = some ⟨before ++ rest⟩ ∧
        ∃ context, LeftContext grammar context name ∧ word = context ++ before := by
  constructor
  · intro valid
    exact ⟨valid.production, valid.exists_leftContext⟩
  · rintro ⟨found, context, outer, splits⟩
    rw [splits]
    exact (outer.valid sole found).append

theorem reachesDot_iff_validItem
    (sole : ∀ index production, grammar.production? grammar.start index = some production → index = 0)
    (item : Item) : ReachesDot grammar word item ↔ ValidItem grammar word item := by
  constructor
  · rintro ⟨context, production, outer, found, within, splits⟩
    refine ⟨production.body.take item.dot, production.body.drop item.dot, ?_, ?_⟩
    · exact (List.length_take_of_le within).symm
    · refine (valid_iff_exists_leftContext sole).mpr ⟨?_, context, outer, splits⟩
      rw [List.take_append_drop]
      exact found
  · rintro ⟨before, rest, isDot, valid⟩
    obtain ⟨found, context, outer, splits⟩ := (valid_iff_exists_leftContext sole).mp valid
    refine ⟨context, ⟨before ++ rest⟩, outer, found, ?_, ?_⟩
    · simp [Production.length, isDot]
    · rw [splits, isDot, List.take_left]

namespace Automaton

theorem goto?_ofGrammar_eq_some_iff {state : ItemSet} {number next : Nat} {symbol : Symbol}
    (numbered : (LR0.states grammar)[number]? = some state) :
    (ofGrammar grammar).goto? number symbol = some next ↔
      (symbol, next) ∈ transitionsOf grammar (LR0.states grammar) state := by
  simp only [goto?, ofGrammar, List.getElem?_map, numbered, Option.map_some, Option.bind_some]
  exact find?_map_snd_eq_some_iff fun _ _ one other => transition_unique one other

theorem walk?_append_singleton (automaton : Automaton) (number : Nat) (word : List Symbol)
    (symbol : Symbol) : automaton.walk? number (word ++ [symbol]) =
      (automaton.walk? number word).bind fun next => automaton.goto? next symbol := by
  induction word generalizing number with
  | nil => simp [walk?]
  | cons head rest ih => simp only [List.cons_append, walk?, ih, Option.bind_assoc]

/-- A walk ends in the state of the items that are left when the dots are moved over the word. -/
theorem getElem?_of_walk? {state : ItemSet} {number last : Nat}
    (numbered : (LR0.states grammar)[number]? = some state)
    (walked : (ofGrammar grammar).walk? number word = some last) :
    (LR0.states grammar)[last]? = some (word.foldl (target grammar) state) := by
  induction word generalizing number state with
  | nil =>
      have isLast : number = last := Option.some.inj walked
      exact isLast ▸ numbered
  | cons symbol rest ih =>
      obtain ⟨next, goes, onward⟩ := Option.bind_eq_some_iff.mp walked
      have inside := (goto?_ofGrammar_eq_some_iff numbered).mp goes
      exact ih (getElem?_of_mem_transitionsOf inside) onward

theorem getElem?_of_walk?_zero {last : Nat}
    (walked : (ofGrammar grammar).walk? 0 word = some last) :
    (LR0.states grammar)[last]? = some (itemsAfter grammar word) :=
  getElem?_of_walk? (getElem?_states_zero grammar) walked

/-- The automaton can be walked along a word when some item is valid after it. -/
theorem exists_walk?_of_valid (valid : Valid grammar word name index before rest) :
    ∃ last, (ofGrammar grammar).walk? 0 word = some last := by
  induction valid with
  | start => exact ⟨0, rfl⟩
  | expand _ _ ih => exact ih
  | @advance word before rest name index symbol valid ih =>
      obtain ⟨middle, walked⟩ := ih
      have numbered := getElem?_of_walk?_zero walked
      have isNext := (mem_nextSymbols _ _ symbol).mpr
        ⟨_, valid.mem_itemsAfter, valid.nextSymbol?⟩
      obtain ⟨next, inside⟩ := exists_transition (List.mem_of_getElem? numbered) isNext
      refine ⟨next, ?_⟩
      rw [walk?_append_singleton, walked, Option.bind_some]
      exact (goto?_ofGrammar_eq_some_iff numbered).mpr inside

/-- Some item is valid after a word along which the automaton can be walked. -/
theorem exists_validItem_of_walk? {production : Production}
    (found : grammar.production? grammar.start 0 = some production) {last : Nat}
    (walked : (ofGrammar grammar).walk? 0 word = some last) : ∃ item, ValidItem grammar word item := by
  rcases List.eq_nil_or_concat word with isNil | ⟨front, symbol, isConcat⟩
  · exact ⟨⟨grammar.start, 0, 0⟩, [], production.body, rfl, isNil ▸ .start found⟩
  · rw [isConcat, List.concat_eq_append, walk?_append_singleton] at walked
    obtain ⟨middle, inFront, goes⟩ := Option.bind_eq_some_iff.mp walked
    have inside := (goto?_ofGrammar_eq_some_iff (getElem?_of_walk?_zero inFront)).mp goes
    obtain ⟨name, index, before, rest, valid⟩ :=
      (mem_nextSymbols_itemsAfter found).mp (mem_transitionsOf.mp inside).1
    refine ⟨⟨name, index, (before ++ [symbol]).length⟩, before ++ [symbol], rest, rfl, ?_⟩
    rw [isConcat, List.concat_eq_append]
    exact valid.advance

end Automaton

theorem mem_itemsAfter_iff {production : Production}
    (found : grammar.production? grammar.start 0 = some production) (item : Item) :
    item ∈ itemsAfter grammar word ↔ ValidItem grammar word item := by
  constructor
  · exact validItem_of_mem_itemsAfter found
  · rintro ⟨before, rest, isDot, valid⟩
    have inside := valid.mem_itemsAfter
    rw [← isDot] at inside
    exact inside

theorem LeftContext.mem_nonterminals (wellFormed : grammar.WellFormed)
    (outer : LeftContext grammar context name) : name ∈ grammar.nonterminals := by
  cases outer with
  | start => exact wellFormed.start_defined
  | @inside _ before after _ _ _ _ _ found splits =>
      have inside : Symbol.nonterminal name ∈ before ++ .nonterminal name :: after :=
        List.mem_append_right before List.mem_cons_self
      rw [← splits] at inside
      rcases wellFormed.symbol_of_body found inside with ⟨_, same⟩ | ⟨_, same, known⟩
      · exact Symbol.noConfusion same
      · rw [Symbol.nonterminal.inj same]
        exact known

theorem LeftContext.known (wellFormed : grammar.WellFormed)
    (outer : LeftContext grammar context name) : ∀ symbol ∈ context, grammar.Known symbol := by
  induction outer with
  | start => exact List.forall_mem_nil _
  | inside _ found splits ih =>
      refine List.forall_mem_append.mpr ⟨ih, fun symbol inside => ?_⟩
      exact Grammar.Known.of_body wellFormed found symbol (splits ▸ List.mem_append_left _ inside)

theorem LeftContext.ne_freshStart (wellFormed : grammar.WellFormed)
    (outer : LeftContext grammar context name) : name ≠ grammar.freshStart := by
  rintro rfl
  exact Grammar.freshStart_not_mem_nonterminals grammar (outer.mem_nonterminals wellFormed)

/-- Augmenting adds the empty left context of the fresh start symbol and no other. -/
theorem leftContext_augmented_iff (wellFormed : grammar.WellFormed) :
    LeftContext grammar.augmented.toGrammar context name ↔
      context = [] ∧ name = grammar.freshStart ∨ LeftContext grammar context name := by
  constructor
  · intro outer
    induction outer with
    | start => exact .inl ⟨rfl, rfl⟩
    | inside _ found splits ih =>
        rcases ih with ⟨isNil, isFresh⟩ | inner
        · rw [isFresh, Grammar.production?_augmented_freshStart] at found
          rw [found.2] at splits
          obtain ⟨nothing, isStart, _⟩ := Grammar.eq_nil_of_append_cons_eq_singleton splits.symm
          rw [isNil, nothing, Symbol.nonterminal.inj isStart]
          exact .inr .start
        · rw [Grammar.production?_augmented (inner.ne_freshStart wellFormed)] at found
          exact .inr (.inside inner found splits)
  · rintro (⟨isNil, isFresh⟩ | outer)
    · rw [isNil, isFresh]
      exact .start
    · induction outer with
      | start =>
          have inside : LeftContext grammar.augmented.toGrammar ([] ++ []) grammar.start :=
            .inside .start (Grammar.production?_freshStart grammar) rfl
          exact inside
      | inside _ found splits ih =>
          exact .inside ih (Grammar.production?_augmented_of_production? found) splits

end LR0

/--
The automaton of the augmented grammar can be walked along exactly the words that reach a dot, and
the state that is reached holds exactly the items whose dots are reached.
-/
theorem Grammar.walk?_automaton (grammar : Grammar) (word : List Symbol) :
    ((∃ last, grammar.automaton.walk? 0 word = some last) ↔
      ∃ item, LR0.ReachesDot grammar.augmented.toGrammar word item) ∧
    ∀ last, grammar.automaton.walk? 0 word = some last →
      ∃ state, grammar.automaton.states[last]? = some state ∧
        ∀ item, item ∈ state ↔ LR0.ReachesDot grammar.augmented.toGrammar word item := by
  have sole := @eq_zero_of_production?_freshStart grammar
  have found := production?_freshStart grammar
  refine ⟨⟨?_, ?_⟩, ?_⟩
  · rintro ⟨last, walked⟩
    obtain ⟨item, valid⟩ := LR0.Automaton.exists_validItem_of_walk? found walked
    exact ⟨item, (LR0.reachesDot_iff_validItem sole item).mpr valid⟩
  · rintro ⟨item, reached⟩
    obtain ⟨before, rest, _, valid⟩ := (LR0.reachesDot_iff_validItem sole item).mp reached
    exact LR0.Automaton.exists_walk?_of_valid valid
  · intro last walked
    refine ⟨_, LR0.Automaton.getElem?_of_walk?_zero walked, fun item => ?_⟩
    rw [LR0.mem_itemsAfter_iff found, LR0.reachesDot_iff_validItem sole]

end Lookahead
