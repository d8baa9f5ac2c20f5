import Lookahead.Data.Exploration
import Lookahead.LR0.Item

/-!
# Sets of items

The closure of a set adds the productions of every nonterminal that stands
after a dot, with the dot in front.  Moving the dot over a symbol keeps the
items that have it next.
-/

namespace Lookahead.LR0

abbrev ItemSet := SortedSet Item

def initialItems (grammar : Grammar) (name : Name) : List Item :=
  (List.range (grammar.productions name).length).map fun index => ⟨name, index, 0⟩

/-- The items that an item adds to its closure directly. -/
def expansion (grammar : Grammar) (item : Item) : List Item :=
  match item.nextSymbol? grammar with
  | some (.nonterminal name) => initialItems grammar name
  | _ => []

def allInitialItems (grammar : Grammar) : List Item :=
  grammar.nonterminals.flatMap (initialItems grammar)

theorem productions_eq_nil (grammar : Grammar) (name : Name)
    (unknown : name ∉ grammar.nonterminals) : grammar.productions name = [] := by
  rw [Grammar.productions, Grammar.rule?_eq_find?]
  have none : grammar.rules.find? (fun rule => decide (rule.lhs = name)) = none := by
    rw [List.find?_eq_none]
    intro rule found same
    exact unknown (List.mem_map.mpr ⟨rule, found, of_decide_eq_true same⟩)
  rw [none]

theorem expansion_subset_allInitialItems (grammar : Grammar) (item added : Item)
    (found : added ∈ expansion grammar item) : added ∈ allInitialItems grammar := by
  unfold expansion at found
  split at found
  · rename_i name _
    by_cases known : name ∈ grammar.nonterminals
    · exact List.mem_flatMap.mpr ⟨name, known, found⟩
    · rw [initialItems, productions_eq_nil grammar name known] at found
      exact absurd found (by simp)
  · exact absurd found List.not_mem_nil

/-- The least set with the given items that holds the expansion of each of its members. -/
def closure (grammar : Grammar) (items : ItemSet) : ItemSet :=
  .ofList (Exploration.explore (expansion grammar)
    (atMost_of_list (P := fun item => item ∈ items.toList ++ allInitialItems grammar) _
      fun _ found => found)
    (fun item _ added found => List.mem_append.mpr
      (.inr (expansion_subset_allInitialItems grammar item added found)))
    items.toList fun _ found => List.mem_append.mpr (.inl found))

theorem mem_closure (grammar : Grammar) (items : ItemSet) (item : Item) :
    item ∈ closure grammar items ↔
      Exploration.Reached (expansion grammar) items.toList item := by
  rw [closure, SortedSet.mem_ofList]
  exact Exploration.mem_explore item

/-- The items with the dot moved past a symbol, before closure. -/
def advance (grammar : Grammar) (items : ItemSet) (symbol : Symbol) : ItemSet :=
  .ofList ((items.toList.filter fun item =>
    decide (item.nextSymbol? grammar = some symbol)).map Item.advance)

theorem mem_advance (grammar : Grammar) (items : ItemSet) (symbol : Symbol) (item : Item) :
    item ∈ advance grammar items symbol ↔
      ∃ before ∈ items, before.nextSymbol? grammar = some symbol ∧ before.advance = item := by
  simp only [advance, SortedSet.mem_ofList, List.mem_map, List.mem_filter, decide_eq_true_eq,
    SortedSet.mem_toList]
  constructor
  · rintro ⟨before, ⟨inside, isNext⟩, same⟩
    exact ⟨before, inside, isNext, same⟩
  · rintro ⟨before, inside, isNext, same⟩
    exact ⟨before, ⟨inside, isNext⟩, same⟩

def nextSymbols (grammar : Grammar) (items : ItemSet) : SymbolSet :=
  .ofList (items.toList.filterMap fun item => item.nextSymbol? grammar)

theorem mem_nextSymbols (grammar : Grammar) (items : ItemSet) (symbol : Symbol) :
    symbol ∈ nextSymbols grammar items ↔
      ∃ item ∈ items, item.nextSymbol? grammar = some symbol := by
  simp only [nextSymbols, SortedSet.mem_ofList, List.mem_filterMap, SortedSet.mem_toList]

end Lookahead.LR0
