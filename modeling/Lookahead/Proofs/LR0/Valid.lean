import Lookahead.Grammar.Derivation
import Lookahead.LR0.Automaton

/-!
# Valid items

An item is valid after a word of symbols when its production can stand in a
sequence derived from the start symbol such that the word ends at its dot.
The state that a word leads to holds exactly the items that are valid after it.
-/

namespace Lookahead.LR0

def itemsAfter (grammar : Grammar) (word : List Symbol) : ItemSet :=
  word.foldl (target grammar) (initialState grammar)

/-- A production, named by its nonterminal and place and split at a dot, is valid after a word. -/
inductive Valid (grammar : Grammar) : List Symbol → Name → Nat → List Symbol → List Symbol → Prop where
  | start {production : Production} (found : grammar.production? grammar.start 0 = some production) :
      Valid grammar [] grammar.start 0 [] production.body
  | expand {word before rest : List Symbol} {name other : Name} {index place : Nat}
      {production : Production} (context : Valid grammar word name index before (.nonterminal other :: rest))
      (found : grammar.production? other place = some production) :
      Valid grammar word other place [] production.body
  | advance {word before rest : List Symbol} {name : Name} {index : Nat} {symbol : Symbol}
      (valid : Valid grammar word name index before (symbol :: rest)) :
      Valid grammar (word ++ [symbol]) name index (before ++ [symbol]) rest

variable {grammar : Grammar} {word before rest : List Symbol} {name : Name} {index : Nat}

theorem itemsAfter_append_singleton (grammar : Grammar) (word : List Symbol) (symbol : Symbol) :
    itemsAfter grammar (word ++ [symbol]) = target grammar (itemsAfter grammar word) symbol := by
  rw [itemsAfter, List.foldl_append]
  rfl

theorem mem_initialItems {item : Item} : item ∈ initialItems grammar name ↔
    item.nonterminal = name ∧ item.dot = 0 ∧
      ∃ production, grammar.production? name item.production = some production := by
  obtain ⟨itemName, itemIndex, dot⟩ := item
  simp only [initialItems, List.mem_map, List.mem_range, Item.mk.injEq]
  constructor
  · rintro ⟨place, inRange, sameName, samePlace, sameDot⟩
    subst sameName samePlace sameDot
    exact ⟨rfl, rfl, _, List.getElem?_eq_getElem inRange⟩
  · rintro ⟨sameName, sameDot, production, found⟩
    subst sameName sameDot
    exact ⟨itemIndex, (List.getElem?_eq_some_iff.mp found).1, rfl, rfl, rfl⟩

theorem mem_expansion {item added : Item} : added ∈ expansion grammar item ↔
    ∃ name, item.nextSymbol? grammar = some (.nonterminal name) ∧ added ∈ initialItems grammar name := by
  unfold expansion
  split
  · rename_i name isNext
    simp [isNext]
  · rename_i notNonterminal
    constructor
    · exact fun inside => absurd inside List.not_mem_nil
    · rintro ⟨name, isNext, _⟩
      exact absurd isNext (notNonterminal name)

/-- An added item is an alternative of the nonterminal behind the dot, from its beginning on. -/
theorem exists_of_mem_expansion {item added : Item} (inside : added ∈ expansion grammar item) :
    ∃ name production, item.nextSymbol? grammar = some (.nonterminal name) ∧
      added = ⟨name, added.production, 0⟩ ∧
      grammar.production? name added.production = some production ∧
      added.nextSymbol? grammar = production.body.head? := by
  obtain ⟨name, isNext, initial⟩ := mem_expansion.mp inside
  obtain ⟨isName, isDot, production, found⟩ := mem_initialItems.mp initial
  refine ⟨name, production, isNext, ?_, found, ?_⟩
  · rw [← isName, ← isDot]
  · rw [Item.nextSymbol?, isName, found, isDot, Option.bind_some, List.head?_eq_getElem?]

theorem Item.exists_production_of_isComplete {item : Item} (complete : item.isComplete grammar = true) :
    ∃ production, grammar.production? item.nonterminal item.production = some production ∧
      production.length ≤ item.dot := by
  unfold Item.isComplete at complete
  split at complete
  · rename_i production found
    exact ⟨production, found, of_decide_eq_true complete⟩
  · cases complete

theorem Item.nextSymbol?_eq_none {item : Item} (complete : item.isComplete grammar = true) :
    item.nextSymbol? grammar = none := by
  obtain ⟨production, found, atEnd⟩ := exists_production_of_isComplete complete
  rw [Item.nextSymbol?, found, Option.bind_some]
  exact List.getElem?_eq_none atEnd

/-- A state is closed: it holds what its members add to it. -/
theorem mem_itemsAfter_of_expansion {item added : Item} (inside : item ∈ itemsAfter grammar word)
    (expands : added ∈ expansion grammar item) : added ∈ itemsAfter grammar word := by
  have closed : ∀ items : ItemSet, item ∈ closure grammar items → added ∈ closure grammar items := by
    intro items member
    rw [mem_closure] at member ⊢
    exact .step member expands
  rcases List.eq_nil_or_concat word with isNil | ⟨front, symbol, isConcat⟩
  · subst isNil
    exact closed _ inside
  · subst isConcat
    rw [List.concat_eq_append, itemsAfter_append_singleton] at inside ⊢
    exact closed _ inside

namespace Valid

theorem production (valid : Valid grammar word name index before rest) :
    grammar.production? name index = some ⟨before ++ rest⟩ := by
  induction valid with
  | start found => exact found
  | expand _ found _ => exact found
  | advance _ ih =>
      rw [List.append_assoc]
      exact ih

theorem nextSymbol? {symbol : Symbol}
    (valid : Valid grammar word name index before (symbol :: rest)) :
    Item.nextSymbol? grammar ⟨name, index, before.length⟩ = some symbol := by
  simp [Item.nextSymbol?, valid.production]

/-- A valid item is in the state that the word leads to. -/
theorem mem_itemsAfter (valid : Valid grammar word name index before rest) :
    ⟨name, index, before.length⟩ ∈ itemsAfter grammar word := by
  induction valid with
  | start =>
      refine (mem_closure _ _ _).mpr (.seed ((SortedSet.mem_toList _ _).mpr ?_))
      exact (SortedSet.mem_singleton _ _).mpr rfl
  | @expand word before rest name other index place production context found ih =>
      refine mem_itemsAfter_of_expansion ih (mem_expansion.mpr ⟨other, context.nextSymbol?, ?_⟩)
      exact mem_initialItems.mpr ⟨rfl, rfl, production, found⟩
  | @advance word before rest name index symbol valid ih =>
      rw [itemsAfter_append_singleton]
      refine (mem_closure _ _ _).mpr (.seed ((SortedSet.mem_toList _ _).mpr ?_))
      refine (mem_advance _ _ _ _).mpr ⟨_, ih, valid.nextSymbol?, ?_⟩
      simp [Item.advance]

/-- The word ends in what is before the dot, and the item with the dot in front is valid before that. -/
theorem exists_front (valid : Valid grammar word name index before rest) :
    ∃ front, word = front ++ before ∧ Valid grammar front name index [] (before ++ rest) := by
  generalize whole : before ++ rest = body
  induction valid with
  | start found => exact ⟨[], rfl, whole ▸ .start found⟩
  | @expand word _ _ _ _ _ _ _ context found _ =>
      exact ⟨word, (List.append_nil word).symm, whole ▸ .expand context found⟩
  | @advance word before rest name index symbol valid ih =>
      obtain ⟨front, same, atFront⟩ := ih (by rw [← whole, List.append_assoc]; rfl)
      exact ⟨front, by rw [same, List.append_assoc], atFront⟩

/-- An item with the dot in front is the start item, or stands behind the dot of another item. -/
theorem start_or_context {body : List Symbol} (valid : Valid grammar word name index [] body) :
    word = [] ∧ name = grammar.start ∧ index = 0 ∨
      ∃ other place before rest, Valid grammar word other place before (.nonterminal name :: rest) := by
  generalize isNil : [] = before at valid
  cases valid with
  | start => exact .inl ⟨rfl, rfl, rfl⟩
  | expand context => exact .inr ⟨_, _, _, _, context⟩
  | advance => exact absurd isNil (by simp)

/-- The dot of an item can be moved over what comes next, together with the word. -/
theorem append {more : List Symbol} (valid : Valid grammar word name index before (more ++ rest)) :
    Valid grammar (word ++ more) name index (before ++ more) rest := by
  induction more generalizing word before with
  | nil => simpa using valid
  | cons head others ih => simpa using ih (Valid.advance valid)

theorem append_nil {body : List Symbol} (valid : Valid grammar word name index before body) :
    Valid grammar word name index before (body ++ []) :=
  (List.append_nil body).symm ▸ valid

/-- The nonterminal of a valid item stands behind the word in a derived sequence. -/
theorem derives (valid : Valid grammar word name index before rest) :
    ∃ front tail, word = front ++ before ∧
      grammar.Derives [.nonterminal grammar.start] (front ++ .nonterminal name :: tail) := by
  induction valid with
  | start => exact ⟨[], [], rfl, .refl _⟩
  | @expand word before rest name other index place production context found ih =>
      obtain ⟨front, tail, same, chain⟩ := ih
      refine ⟨word, rest ++ tail, (List.append_nil word).symm, ?_⟩
      have expanded := chain.step (.expand front tail context.production)
      simpa [same] using expanded
  | @advance word before rest name index symbol valid ih =>
      obtain ⟨front, tail, same, chain⟩ := ih
      exact ⟨front, tail, by rw [same, List.append_assoc], chain⟩

end Valid

def ValidItem (grammar : Grammar) (word : List Symbol) (item : Item) : Prop :=
  ∃ before rest, item.dot = before.length ∧
    Valid grammar word item.nonterminal item.production before rest

theorem ValidItem.of_nextSymbol? {item : Item} {symbol : Symbol}
    (valid : ValidItem grammar word item) (isNext : item.nextSymbol? grammar = some symbol) :
    ∃ before rest, item.dot = before.length ∧
      Valid grammar word item.nonterminal item.production before (symbol :: rest) := by
  obtain ⟨before, rest, isDot, split⟩ := valid
  cases rest with
  | nil => simp [Item.nextSymbol?, split.production, isDot] at isNext
  | cons head others =>
      have same : head = symbol := by simpa [Item.nextSymbol?, split.production, isDot] using isNext
      exact ⟨before, others, isDot, same ▸ split⟩

theorem ValidItem.closure {items : ItemSet} (valid : ∀ item ∈ items, ValidItem grammar word item) :
    ∀ item ∈ LR0.closure grammar items, ValidItem grammar word item := by
  intro item inside
  have reached := (mem_closure _ _ _).mp inside
  induction reached with
  | seed found => exact valid _ ((SortedSet.mem_toList _ _).mp found)
  | @step node successor before found ih =>
      obtain ⟨other, isNext, initial⟩ := mem_expansion.mp found
      obtain ⟨isName, isDot, production, inGrammar⟩ := mem_initialItems.mp initial
      obtain ⟨_, _, _, context⟩ := (ih ((mem_closure _ _ _).mpr before)).of_nextSymbol? isNext
      rw [← isName] at context inGrammar
      exact ⟨[], production.body, isDot, .expand context inGrammar⟩

theorem ValidItem.target {state : ItemSet} (valid : ∀ item ∈ state, ValidItem grammar word item)
    (symbol : Symbol) :
    ∀ item ∈ LR0.target grammar state symbol, ValidItem grammar (word ++ [symbol]) item := by
  apply ValidItem.closure
  intro item inside
  obtain ⟨earlier, inState, isNext, same⟩ := (mem_advance _ _ _ _).mp inside
  obtain ⟨before, rest, isDot, split⟩ := (valid earlier inState).of_nextSymbol? isNext
  subst same
  exact ⟨before ++ [symbol], rest, by simp [Item.advance, isDot], .advance split⟩

/-- The members of the state that a word leads to are valid after the word. -/
theorem validItem_of_mem_itemsAfter {production : Production}
    (found : grammar.production? grammar.start 0 = some production) {item : Item}
    (inside : item ∈ itemsAfter grammar word) : ValidItem grammar word item := by
  have onward : ∀ (rest front : List Symbol) (state : ItemSet),
      (∀ item ∈ state, ValidItem grammar front item) →
      ∀ item ∈ rest.foldl (LR0.target grammar) state, ValidItem grammar (front ++ rest) item := by
    intro rest
    induction rest with
    | nil => simp
    | cons head others ih =>
        intro front state valid
        have later := ih (front ++ [head]) _ (ValidItem.target valid head)
        rw [List.append_assoc] at later
        exact later
  refine onward word [] _ (ValidItem.closure ?_) item inside
  intro first isFirst
  rw [(SortedSet.mem_singleton _ _).mp isFirst]
  exact ⟨[], production.body, rfl, .start found⟩

/-- What comes after the dots in the state that a word leads to comes after those of valid items. -/
theorem mem_nextSymbols_itemsAfter {production : Production}
    (found : grammar.production? grammar.start 0 = some production) {symbol : Symbol} :
    symbol ∈ nextSymbols grammar (itemsAfter grammar word) ↔
      ∃ name index before rest, Valid grammar word name index before (symbol :: rest) := by
  rw [mem_nextSymbols]
  constructor
  · rintro ⟨item, inside, isNext⟩
    obtain ⟨before, rest, _, valid⟩ := (validItem_of_mem_itemsAfter found inside).of_nextSymbol? isNext
    exact ⟨_, _, before, rest, valid⟩
  · rintro ⟨name, index, before, rest, valid⟩
    exact ⟨_, valid.mem_itemsAfter, valid.nextSymbol?⟩

end Lookahead.LR0
