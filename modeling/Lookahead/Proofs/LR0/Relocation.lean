import Mathlib.Data.List.Basic
import Mathlib.Logic.Equiv.Basic
import Lookahead.Proofs.LR0.Valid

/-!
# Productions at other places

When the alternatives of a grammar are put at other places, its items move with
them and nothing else changes: closures, the symbols behind dots and the walk that
numbers the states all go along.  So the automaton has the same transitions, and
under each number the items that were moved.
-/

namespace Lookahead

namespace Exploration

variable {α β : Type} [DecidableEq α] [DecidableEq β] {rename : α → β}

theorem fresh_map (injective : Function.Injective rename) (known values : List α) :
    fresh (known.map rename) (values.map rename) = (fresh known values).map rename := by
  induction values generalizing known with
  | nil => rfl
  | cons head rest ih =>
      simp only [List.map_cons, fresh, List.mem_map_of_injective injective]
      split
      · exact ih known
      · rw [List.map_cons, ← ih (head :: known), List.map_cons]

variable {next : α → List α} {P : α → Prop} {bound : Nat} {finite : AtMost bound P}
  {closed : ∀ node, P node → ∀ successor ∈ next node, P successor}
  {nextThere : β → List β} {Q : β → Prop} {boundThere : Nat} {finiteThere : AtMost boundThere Q}
  {closedThere : ∀ node, Q node → ∀ successor ∈ nextThere node, Q successor}

/-- A walk goes along with a renaming of the nodes that keeps successors, in the same order. -/
theorem walk_map (injective : Function.Injective rename)
    (keeps : ∀ node, nextThere (rename node) = (next node).map rename)
    (done pending : List α) (nodup : (done ++ pending).Nodup)
    (within : ∀ node ∈ done ++ pending, P node) {doneThere pendingThere : List β}
    (isDone : doneThere = done.map rename) (isPending : pendingThere = pending.map rename)
    (nodupThere : (doneThere ++ pendingThere).Nodup)
    (withinThere : ∀ node ∈ doneThere ++ pendingThere, Q node) :
    walk nextThere finiteThere closedThere doneThere pendingThere nodupThere withinThere =
      (walk next finite closed done pending nodup within).map rename := by
  fun_induction walk next finite closed done pending nodup within
    generalizing doneThere pendingThere with
  | case1 done =>
      obtain rfl := isPending.trans List.map_nil
      rw [walk, isDone]
  | case2 done node rest nodup within _ _ ih =>
      obtain rfl := isPending.trans List.map_cons
      subst isDone
      rw [walk]
      refine ih (by simp) ?_ _ _
      rw [keeps, List.map_append, ← fresh_map injective, List.map_append, List.map_cons]

theorem explore_map {seeds : List α} {seeded : ∀ node ∈ seeds, P node} {seedsThere : List β}
    {seededThere : ∀ node ∈ seedsThere, Q node} (injective : Function.Injective rename)
    (keeps : ∀ node, nextThere (rename node) = (next node).map rename)
    (isSeeds : seedsThere = seeds.map rename) :
    explore nextThere finiteThere closedThere seedsThere seededThere =
      (explore next finite closed seeds seeded).map rename := by
  refine walk_map injective keeps [] _ _ _ rfl ?_ _ _
  rw [isSeeds, ← fresh_map injective, List.map_nil]

end Exploration

/-- The other grammar has the same start symbol, and each production at the place it was moved to. -/
structure Grammar.Relocated (grammar other : Grammar) (place : Name → Equiv.Perm Nat) : Prop where
  start : other.start = grammar.start
  production? : ∀ name index,
    other.production? name (place name index) = grammar.production? name index

theorem Grammar.Relocated.symm {grammar other : Grammar} {place : Name → Equiv.Perm Nat}
    (relocated : grammar.Relocated other place) :
    other.Relocated grammar fun name => (place name).symm where
  start := relocated.start.symm
  production? := by
    intro name index
    rw [← relocated.production?, Equiv.apply_symm_apply]

namespace LR0

def Item.relocate (place : Name → Equiv.Perm Nat) (item : Item) : Item :=
  { item with production := place item.nonterminal item.production }

def ItemSet.relocate (place : Name → Equiv.Perm Nat) (items : ItemSet) : ItemSet :=
  .ofList (items.toList.map (Item.relocate place))

section Relocate

variable {place : Name → Equiv.Perm Nat}

@[simp]
theorem Item.relocate_symm_relocate (place : Name → Equiv.Perm Nat) (item : Item) :
    (item.relocate place).relocate (fun name => (place name).symm) = item := by
  simp [relocate]

@[simp]
theorem Item.relocate_relocate_symm (place : Name → Equiv.Perm Nat) (item : Item) :
    (item.relocate fun name => (place name).symm).relocate place = item := by
  simp [relocate]

theorem Item.relocate_injective : Function.Injective (Item.relocate place) :=
  Function.LeftInverse.injective (relocate_symm_relocate place)

@[simp]
theorem Item.advance_relocate (item : Item) :
    (item.relocate place).advance = item.advance.relocate place := rfl

@[simp]
theorem ItemSet.mem_relocate (place : Name → Equiv.Perm Nat) (items : ItemSet) (item : Item) :
    item.relocate place ∈ items.relocate place ↔ item ∈ items := by
  rw [ItemSet.relocate, SortedSet.mem_ofList, List.mem_map_of_injective Item.relocate_injective,
    SortedSet.mem_toList]

theorem ItemSet.exists_mem_relocate {items : ItemSet} {holds : Item → Prop} :
    (∃ item ∈ items.relocate place, holds item) ↔ ∃ item ∈ items, holds (item.relocate place) := by
  constructor
  · rintro ⟨moved, inside, held⟩
    rw [← Item.relocate_relocate_symm place moved] at inside held
    exact ⟨_, (items.mem_relocate place _).mp inside, held⟩
  · rintro ⟨item, inside, held⟩
    exact ⟨_, (items.mem_relocate place item).mpr inside, held⟩

/-- Every item is one that was moved, so a set is told by what was moved into it. -/
theorem ItemSet.eq_relocate {items moved : ItemSet}
    (same : ∀ item, item.relocate place ∈ moved ↔ item ∈ items) : moved = items.relocate place := by
  apply SortedSet.ext
  intro item
  rw [← Item.relocate_relocate_symm place item, same, mem_relocate]

theorem ItemSet.relocate_injective : Function.Injective (ItemSet.relocate place) := by
  intro first second same
  apply SortedSet.ext
  intro item
  rw [← first.mem_relocate place, same, mem_relocate]

theorem ItemSet.relocate_singleton (item : Item) :
    ItemSet.relocate place (.singleton item) = .singleton (item.relocate place) := by
  refine (ItemSet.eq_relocate fun other => ?_).symm
  rw [SortedSet.mem_singleton, SortedSet.mem_singleton, Item.relocate_injective.eq_iff]

end Relocate

variable {grammar other : Grammar} {place : Name → Equiv.Perm Nat} {item added : Item}

section Items

variable (relocated : grammar.Relocated other place)
include relocated

theorem nextSymbol?_relocate (item : Item) :
    (item.relocate place).nextSymbol? other = item.nextSymbol? grammar := by
  rw [Item.nextSymbol?, Item.nextSymbol?, Item.relocate, relocated.production?]

theorem isComplete_relocate (item : Item) :
    (item.relocate place).isComplete other = item.isComplete grammar := by
  rw [Item.isComplete, Item.isComplete, Item.relocate, relocated.production?]

theorem mem_initialItems_relocate {name : Name} :
    added.relocate place ∈ initialItems other name ↔ added ∈ initialItems grammar name := by
  rw [mem_initialItems, mem_initialItems]
  refine and_congr_right fun isName => ?_
  rw [← relocated.production?, ← isName]
  rfl

theorem mem_expansion_relocate :
    added.relocate place ∈ expansion other (item.relocate place) ↔ added ∈ expansion grammar item := by
  simp only [mem_expansion, nextSymbol?_relocate relocated, mem_initialItems_relocate relocated]

theorem reached_relocate {items : ItemSet}
    (reached : Exploration.Reached (expansion grammar) items.toList item) :
    Exploration.Reached (expansion other) (items.relocate place).toList (item.relocate place) := by
  induction reached with
  | seed found => exact .seed ((items.mem_relocate place _).mpr found)
  | step _ found ih => exact .step ih ((mem_expansion_relocate relocated).mpr found)

end Items

section Sets

variable (relocated : grammar.Relocated other place)
include relocated

theorem closure_relocate (items : ItemSet) :
    closure other (items.relocate place) = (closure grammar items).relocate place := by
  refine ItemSet.eq_relocate fun item => ?_
  rw [mem_closure, mem_closure]
  constructor
  · intro reached
    have back := reached_relocate relocated.symm reached
    have same : (items.relocate place).relocate (fun name => (place name).symm) = items :=
      (ItemSet.eq_relocate fun before => by
        rw [← ItemSet.mem_relocate place, Item.relocate_relocate_symm]).symm
    rwa [same, Item.relocate_symm_relocate] at back
  · exact reached_relocate relocated

theorem advance_relocate (items : ItemSet) (symbol : Symbol) :
    advance other (items.relocate place) symbol = (advance grammar items symbol).relocate place := by
  refine ItemSet.eq_relocate fun item => ?_
  simp only [mem_advance, ItemSet.exists_mem_relocate, nextSymbol?_relocate relocated,
    Item.advance_relocate, Item.relocate_injective.eq_iff]

theorem nextSymbols_relocate (items : ItemSet) :
    nextSymbols other (items.relocate place) = nextSymbols grammar items := by
  apply SortedSet.ext
  intro symbol
  simp only [mem_nextSymbols, ItemSet.exists_mem_relocate, nextSymbol?_relocate relocated]

theorem target_relocate (state : ItemSet) (symbol : Symbol) :
    target other (state.relocate place) symbol = (target grammar state symbol).relocate place := by
  rw [target, advance_relocate relocated, closure_relocate relocated]
  rfl

theorem successors_relocate (state : ItemSet) :
    successors other (state.relocate place) =
      (successors grammar state).map (ItemSet.relocate place) := by
  rw [successors, nextSymbols_relocate relocated, successors, List.map_map]
  exact List.map_congr_left fun symbol _ => target_relocate relocated state symbol

theorem transitionsOf_relocate (all : List ItemSet) (state : ItemSet) :
    Automaton.transitionsOf other (all.map (ItemSet.relocate place)) (state.relocate place) =
      Automaton.transitionsOf grammar all state := by
  rw [Automaton.transitionsOf, Automaton.transitionsOf, nextSymbols_relocate relocated]
  refine List.filterMap_congr fun symbol _ => ?_
  simp only [target_relocate relocated, List.findIdx?_map, Function.comp_def,
    ItemSet.relocate_injective.eq_iff]

section Automaton

variable (startStays : place grammar.start 0 = 0)
include startStays

theorem initialState_relocate : initialState other = (initialState grammar).relocate place := by
  have startItem : (⟨other.start, 0, 0⟩ : Item) = Item.relocate place ⟨grammar.start, 0, 0⟩ := by
    rw [relocated.start, Item.relocate, startStays]
  rw [initialState, startItem, ← ItemSet.relocate_singleton, closure_relocate relocated]
  rfl

/-- The walk meets the moved states in the same order, so their numbers stay. -/
theorem states_relocate : states other = (states grammar).map (ItemSet.relocate place) := by
  refine Exploration.explore_map ItemSet.relocate_injective (successors_relocate relocated) ?_
  rw [initialState_relocate relocated startStays]
  rfl

/-- The states of the automaton hold the moved items, and its transitions stay as they are. -/
theorem ofGrammar_relocate :
    (Automaton.ofGrammar other).states =
        (Automaton.ofGrammar grammar).states.map (ItemSet.relocate place) ∧
      (Automaton.ofGrammar other).transitions = (Automaton.ofGrammar grammar).transitions := by
  have sameStates := states_relocate relocated startStays
  refine ⟨sameStates, ?_⟩
  simp only [Automaton.ofGrammar, sameStates, List.map_map]
  exact List.map_congr_left fun state _ => transitionsOf_relocate relocated _ state

end Automaton

end Sets

end LR0

end Lookahead
