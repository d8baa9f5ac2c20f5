import Lookahead.Data.Subsets
import Lookahead.LR0.ItemSet

/-!
# The automaton of item sets

States are the closed item sets that are reached from the closure of the start
item by moving dots over symbols, numbered in the order of a breadth-first walk
that takes the symbols of a state in their order.
-/

namespace Lookahead.LR0

def itemUniverse (grammar : Grammar) : ItemSet :=
  .ofList (⟨grammar.start, 0, 0⟩ :: grammar.nonterminals.flatMap fun name =>
    (grammar.productions name).zipIdx.flatMap fun (production, index) =>
      (List.range (production.length + 1)).map fun dot => ⟨name, index, dot⟩)

/-- The state that a symbol leads to: the dot is moved over it, and the set closed. -/
def target (grammar : Grammar) (state : ItemSet) (symbol : Symbol) : ItemSet :=
  closure grammar (advance grammar state symbol)

def successors (grammar : Grammar) (state : ItemSet) : List ItemSet :=
  (nextSymbols grammar state).toList.map (target grammar state)

def initialState (grammar : Grammar) : ItemSet :=
  closure grammar (.singleton ⟨grammar.start, 0, 0⟩)

theorem mem_itemUniverse_of_production? (grammar : Grammar) (item : Item)
    (production : Production)
    (found : grammar.production? item.nonterminal item.production = some production)
    (dot_le : item.dot ≤ production.length) : item ∈ itemUniverse grammar := by
  obtain ⟨name, index, dot⟩ := item
  simp only [itemUniverse, SortedSet.mem_ofList, List.mem_cons, List.mem_flatMap]
  refine .inr ⟨name, ?_, ⟨production, index⟩, ?_, ?_⟩
  · by_cases known : name ∈ grammar.nonterminals
    · exact known
    · rw [Grammar.production?, productions_eq_nil grammar name known] at found
      exact absurd found (by simp)
  · exact List.mem_zipIdx_iff_getElem?.mpr found
  · exact List.mem_map.mpr ⟨dot, List.mem_range.mpr (Nat.lt_succ_of_le dot_le), rfl⟩

theorem mem_itemUniverse_of_mem_initialItems (grammar : Grammar) (name : Name) (item : Item)
    (found : item ∈ initialItems grammar name) : item ∈ itemUniverse grammar := by
  obtain ⟨index, inRange, same⟩ := List.mem_map.mp found
  have lt := List.mem_range.mp inRange
  subst same
  exact mem_itemUniverse_of_production? grammar _ (grammar.productions name)[index]
    (List.getElem?_eq_getElem lt) (Nat.zero_le _)

theorem closure_subset_itemUniverse (grammar : Grammar) (items : ItemSet)
    (within : items ⊆ itemUniverse grammar) : closure grammar items ⊆ itemUniverse grammar := by
  intro item inside
  have reached := (mem_closure grammar items item).mp inside
  induction reached with
  | seed found => exact within _ found
  | @step node successor _ found _ =>
      unfold expansion at found
      split at found
      · exact mem_itemUniverse_of_mem_initialItems grammar _ _ found
      · exact absurd found List.not_mem_nil

theorem advance_subset_itemUniverse (grammar : Grammar) (items : ItemSet) (symbol : Symbol) :
    advance grammar items symbol ⊆ itemUniverse grammar := by
  intro item inside
  obtain ⟨before, _, isNext, same⟩ := (mem_advance grammar items symbol item).mp inside
  subst same
  obtain ⟨production, found, atDot⟩ := Option.bind_eq_some_iff.mp isNext
  exact mem_itemUniverse_of_production? grammar before.advance production found
    (List.getElem?_eq_some_iff.mp atDot).1

theorem initialState_subset_itemUniverse (grammar : Grammar) :
    initialState grammar ⊆ itemUniverse grammar := by
  refine closure_subset_itemUniverse grammar _ ?_
  intro item inside
  rw [(SortedSet.mem_singleton _ _).mp inside, itemUniverse, SortedSet.mem_ofList]
  exact List.mem_cons_self

theorem successors_subset_itemUniverse (grammar : Grammar) (state successor : ItemSet)
    (found : successor ∈ successors grammar state) : successor ⊆ itemUniverse grammar := by
  obtain ⟨symbol, _, same⟩ := List.mem_map.mp found
  exact same ▸ closure_subset_itemUniverse grammar _
    (advance_subset_itemUniverse grammar state symbol)

def states (grammar : Grammar) : List ItemSet :=
  Exploration.explore (successors grammar) (itemUniverse grammar).atMost_subsets
    (fun state _ successor found => successors_subset_itemUniverse grammar state successor found)
    [initialState grammar] fun _ found =>
      (List.mem_singleton.mp found) ▸ initialState_subset_itemUniverse grammar

/-- States by number, and for each state the numbers of the states its symbols lead to. -/
structure Automaton where
  states : List ItemSet
  transitions : List (List (Symbol × Nat))
  deriving DecidableEq, Inhabited

namespace Automaton

def transitionsOf (grammar : Grammar) (states : List ItemSet) (state : ItemSet) :
    List (Symbol × Nat) :=
  (nextSymbols grammar state).toList.filterMap fun symbol =>
    let next := target grammar state symbol
    (states.findIdx? fun other => decide (other = next)).map fun number => (symbol, number)

def ofGrammar (grammar : Grammar) : Automaton :=
  let states := LR0.states grammar
  ⟨states, states.map (transitionsOf grammar states)⟩

def size (automaton : Automaton) : Nat := automaton.states.length

def goto? (automaton : Automaton) (state : Nat) (symbol : Symbol) : Option Nat :=
  automaton.transitions[state]?.bind fun row =>
    (row.find? fun entry => decide (entry.1 = symbol)).map Prod.snd

def edges (automaton : Automaton) : List (Nat × Symbol × Nat) :=
  automaton.transitions.zipIdx.flatMap fun (row, source) =>
    row.map fun (symbol, number) => (source, symbol, number)

def transitionCount (automaton : Automaton) : Nat := automaton.transitions.flatten.length

end Automaton

end Lookahead.LR0
