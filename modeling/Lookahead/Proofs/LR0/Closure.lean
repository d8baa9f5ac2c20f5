import Lookahead.Proofs.LR0.Valid
import Lookahead.Proofs.Parse.Runs

/-!
# Closures of item sets

The closure of a set of items is the least collection that holds the set and, with an
item before a nonterminal, the productions of that nonterminal.  So closing is a closure
operator, and one that goes along with unions.  The loop that keeps a stack of the items
whose productions are still to be added ends with this set.
-/

namespace Lookahead.LR0

/-- With an item before a nonterminal, all its productions are held, with the dot in front. -/
def Closed (grammar : Grammar) (holds : Item → Prop) : Prop :=
  ∀ item name, holds item → item.nextSymbol? grammar = some (.nonterminal name) →
    ∀ index, index < (grammar.productions name).length → holds ⟨name, index, 0⟩

/-- A set is the least closed collection of items that holds given ones. -/
structure IsClosure (grammar : Grammar) (items result : ItemSet) : Prop where
  subset : items ⊆ result
  closed : Closed grammar (· ∈ result)
  least : ∀ holds : Item → Prop, (∀ item ∈ items, holds item) → Closed grammar holds →
    ∀ item ∈ result, holds item

variable {grammar : Grammar} {items others result : ItemSet}

theorem closed_iff_expansion {holds : Item → Prop} :
    Closed grammar holds ↔ ∀ item, holds item → ∀ added ∈ expansion grammar item, holds added := by
  constructor
  · intro closed item held added inside
    obtain ⟨name, isNext, initial⟩ := mem_expansion.mp inside
    obtain ⟨index, inRange, same⟩ := List.mem_map.mp initial
    exact same ▸ closed item name held isNext index (List.mem_range.mp inRange)
  · intro closed item name held isNext index inRange
    refine closed item held _ (mem_expansion.mpr ⟨name, isNext, ?_⟩)
    exact List.mem_map.mpr ⟨index, List.mem_range.mpr inRange, rfl⟩

theorem isClosure_closure (grammar : Grammar) (items : ItemSet) :
    IsClosure grammar items (closure grammar items) where
  subset := fun item inside => (mem_closure grammar items item).mpr (.seed inside)
  closed := by
    refine closed_iff_expansion.mpr fun item inside added expands => ?_
    exact (mem_closure grammar items added).mpr (.step ((mem_closure _ _ _).mp inside) expands)
  least := by
    intro holds seeded closed item inside
    have reached := (mem_closure grammar items item).mp inside
    induction reached with
    | seed found => exact seeded _ found
    | step before found ih =>
        exact closed_iff_expansion.mp closed _ (ih ((mem_closure _ _ _).mpr before)) _ found

namespace IsClosure

/-- A least closed set lies in every closed set that holds the items. -/
theorem subset_of_closed (isClosure : IsClosure grammar items result)
    (within : items ⊆ others) (closed : Closed grammar (· ∈ others)) : result ⊆ others :=
  isClosure.least (· ∈ others) within closed

theorem unique {another : ItemSet} (one : IsClosure grammar items result)
    (other : IsClosure grammar items another) : result = another := by
  apply SortedSet.ext
  intro item
  exact ⟨one.subset_of_closed other.subset other.closed item,
    other.subset_of_closed one.subset one.closed item⟩

/-- A closed set is its own closure. -/
theorem of_closed (closed : Closed grammar (· ∈ items)) : IsClosure grammar items items where
  subset := fun _ inside => inside
  closed := closed
  least := fun _ seeded _ => seeded

theorem mono {above : ItemSet} (lower : IsClosure grammar items result)
    (upper : IsClosure grammar others above) (within : items ⊆ others) : result ⊆ above :=
  lower.subset_of_closed (fun item inside => upper.subset item (within item inside)) upper.closed

/-- The union of two least closed sets is closed, since an item expands by itself. -/
theorem union {above : ItemSet} (one : IsClosure grammar items result)
    (other : IsClosure grammar others above) :
    IsClosure grammar (items ∪ others) (result ∪ above) where
  subset := by
    intro item inside
    rcases (SortedSet.mem_union _ _ item).mp inside with first | second
    · exact (SortedSet.mem_union _ _ item).mpr (.inl (one.subset item first))
    · exact (SortedSet.mem_union _ _ item).mpr (.inr (other.subset item second))
  closed := by
    intro item name inside isNext index inRange
    rcases (SortedSet.mem_union _ _ item).mp inside with first | second
    · exact (SortedSet.mem_union _ _ _).mpr (.inl (one.closed item name first isNext index inRange))
    · exact (SortedSet.mem_union _ _ _).mpr
        (.inr (other.closed item name second isNext index inRange))
  least := by
    intro holds seeded closed item inside
    have fromFirst := fun item inside => seeded item ((SortedSet.mem_union _ _ item).mpr (.inl inside))
    have fromSecond := fun item inside => seeded item ((SortedSet.mem_union _ _ item).mpr (.inr inside))
    rcases (SortedSet.mem_union _ _ item).mp inside with first | second
    · exact one.least holds fromFirst closed item first
    · exact other.least holds fromSecond closed item second

end IsClosure

theorem closure_closure (grammar : Grammar) (items : ItemSet) :
    closure grammar (closure grammar items) = closure grammar items :=
  (isClosure_closure grammar _).unique (.of_closed (isClosure_closure grammar items).closed)

/-- The loop that closes a set: what is found so far, and a stack of what is still to be expanded. -/
structure Closing where
  found : ItemSet
  pending : List Item

namespace Closing

def add (work : Closing) (item : Item) : Closing :=
  if item ∈ work.found then work else ⟨work.found.insert item, item :: work.pending⟩

/-- Take an item from the stack and add its expansion; with an empty stack, give what is found. -/
def step (grammar : Grammar) (work : Closing) : Step Closing ItemSet :=
  match work.pending with
  | [] => .halt work.found
  | item :: rest => .next ((expansion grammar item).foldl add ⟨work.found, rest⟩)

def start (items : ItemSet) : Closing := ⟨items, items.toList.reverse⟩

/-- What the loop keeps: only members of the closure are found, and all is expanded or waits. -/
structure Underway (grammar : Grammar) (items : ItemSet) (work : Closing) : Prop where
  subset : items ⊆ work.found
  found : work.found ⊆ closure grammar items
  pending : ∀ item ∈ work.pending, item ∈ work.found
  expanded : ∀ item ∈ work.found,
    item ∈ work.pending ∨ ∀ added ∈ expansion grammar item, added ∈ work.found

theorem mem_found_foldl_add (added : List Item) (work : Closing) (item : Item) :
    item ∈ (added.foldl add work).found ↔ item ∈ added ∨ item ∈ work.found := by
  induction added generalizing work with
  | nil => simp
  | cons head rest ih =>
      rw [List.foldl_cons, ih, add]
      split
      · grind
      · rw [SortedSet.mem_insert, List.mem_cons, or_left_comm, or_assoc]

/-- The items on the stack are those that were there and those that were new. -/
theorem mem_pending_foldl_add (added : List Item) (work : Closing) (item : Item) :
    item ∈ (added.foldl add work).pending ↔
      item ∈ work.pending ∨ item ∈ added ∧ item ∉ work.found := by
  induction added generalizing work with
  | nil => simp
  | cons head rest ih =>
      rw [List.foldl_cons, ih, add]
      split
      · grind
      · simp only [List.mem_cons, SortedSet.mem_insert]
        grind

theorem underway_start (grammar : Grammar) (items : ItemSet) :
    (start items).Underway grammar items where
  subset := fun _ inside => inside
  found := (isClosure_closure grammar items).subset
  pending := fun _ waits => List.mem_reverse.mp waits
  expanded := fun _ inside => .inl (List.mem_reverse.mpr inside)

/-- Taking an item from the stack and adding its expansion keeps what the loop keeps. -/
theorem Underway.expand {item : Item} {rest : List Item} {found : ItemSet}
    (underway : Underway grammar items ⟨found, item :: rest⟩) :
    Underway grammar items ((expansion grammar item).foldl add ⟨found, rest⟩) where
  subset := fun other inside =>
    (mem_found_foldl_add _ _ other).mpr (.inr (underway.subset other inside))
  found := by
    intro other inside
    rcases (mem_found_foldl_add _ _ other).mp inside with new | old
    · have taken := underway.found item (underway.pending item List.mem_cons_self)
      exact closed_iff_expansion.mp (isClosure_closure grammar items).closed item taken other new
    · exact underway.found other old
  pending := by
    intro other waits
    rcases (mem_pending_foldl_add _ _ other).mp waits with old | ⟨new, _⟩
    · exact (mem_found_foldl_add _ _ other).mpr
        (.inr (underway.pending other (List.mem_cons_of_mem item old)))
    · exact (mem_found_foldl_add _ _ other).mpr (.inl new)
  expanded := by
    intro other inside
    have grown := fun added inside =>
      (mem_found_foldl_add (expansion grammar item) ⟨found, rest⟩ added).mpr inside
    by_cases old : other ∈ found
    · rcases underway.expanded other old with waits | expanded
      · rcases List.mem_cons.mp waits with here | later
        · exact .inr fun added expands => grown added (.inl (here ▸ expands))
        · exact .inl ((mem_pending_foldl_add _ _ other).mpr (.inl later))
      · exact .inr fun added expands => grown added (.inr (expanded added expands))
    · have new := ((mem_found_foldl_add _ _ other).mp inside).resolve_right old
      exact .inl ((mem_pending_foldl_add _ _ other).mpr (.inr ⟨new, old⟩))

/-- Once nothing waits, the closure is found. -/
theorem Underway.found_eq {found : ItemSet} (underway : Underway grammar items ⟨found, []⟩) :
    found = closure grammar items := by
  have closed : Closed grammar (· ∈ found) := closed_iff_expansion.mpr fun item inside =>
    (underway.expanded item inside).resolve_left List.not_mem_nil
  apply SortedSet.ext
  intro item
  exact ⟨underway.found item,
    (isClosure_closure grammar items).subset_of_closed underway.subset closed item⟩

/-- The turns that are left at most: one for each item that waits or is not found yet. -/
def room (grammar : Grammar) (items : ItemSet) (work : Closing) : Nat :=
  (closure grammar items).size - work.found.size + work.pending.length

/-- A new item that waits was not found before, so adding it leaves as much room. -/
theorem room_add_le {work : Closing} {item : Item} (within : work.found ⊆ closure grammar items)
    (inside : item ∈ closure grammar items) :
    (work.add item).room grammar items ≤ work.room grammar items := by
  unfold add
  split
  · exact Nat.le_refl _
  · rename_i new
    have fits : (work.found.insert item).size ≤ (closure grammar items).size := by
      refine SortedSet.size_le_of_subset fun member found => ?_
      rcases (SortedSet.mem_insert _ member _).mp found with same | old
      · exact same ▸ inside
      · exact within member old
    have grown : work.found.size < (work.found.insert item).size := by
      refine Nat.lt_of_not_le fun small => new ?_
      have same : work.found = work.found.insert item := SortedSet.eq_of_subset_of_size_le
        (fun member old => (SortedSet.mem_insert _ member _).mpr (.inr old)) small
      rw [same]
      exact (SortedSet.mem_insert _ item _).mpr (.inl rfl)
    simp only [room, List.length_cons]
    omega

theorem room_foldl_add_le {work : Closing} {added : List Item}
    (within : work.found ⊆ closure grammar items)
    (inside : ∀ item ∈ added, item ∈ closure grammar items) :
    (added.foldl add work).room grammar items ≤ work.room grammar items := by
  induction added generalizing work with
  | nil => exact Nat.le_refl _
  | cons head rest ih =>
      obtain ⟨headInside, restInside⟩ := List.forall_mem_cons.mp inside
      refine Nat.le_trans (ih ?_ restInside) (room_add_le within headInside)
      intro member found
      rcases (mem_found_foldl_add [head] work member).mp found with here | old
      · exact List.mem_singleton.mp here ▸ headInside
      · exact within member old

/-- Each turn uses up room, so the loop ends, and with the closure. -/
theorem Underway.halts {work : Closing} (underway : work.Underway grammar items) :
    Machine.Halts (step grammar) work (closure grammar items) := by
  induction bound : work.room grammar items using Nat.strongRecOn generalizing work with
  | _ bound ih =>
    obtain ⟨found, pending⟩ := work
    cases pending with
    | nil => exact underway.found_eq ▸ .halt rfl
    | cons item rest =>
        refine .next rfl (ih _ ?_ underway.expand rfl)
        have taken := underway.found item (underway.pending item List.mem_cons_self)
        have shrunk : ((expansion grammar item).foldl add ⟨found, rest⟩).room grammar items ≤
            room grammar items ⟨found, rest⟩ := room_foldl_add_le underway.found
          (closed_iff_expansion.mp (isClosure_closure grammar items).closed item taken)
        simp only [room, List.length_cons] at bound shrunk ⊢
        omega

end Closing

/--
The loop that closes a set of items ends, whatever the items are, with the least closed set that
holds them.  Closing again adds nothing, more items have the larger closure, and the closure of a
union is the union of the closures.
-/
theorem closure_least (grammar : Grammar) (items : ItemSet) :
    Machine.Halts (Closing.step grammar) (Closing.start items) (closure grammar items) ∧
    IsClosure grammar items (closure grammar items) ∧
    closure grammar (closure grammar items) = closure grammar items ∧
    (∀ others, items ⊆ others → closure grammar items ⊆ closure grammar others) ∧
    ∀ others, closure grammar (items ∪ others) = closure grammar items ∪ closure grammar others := by
  have isClosure := isClosure_closure grammar
  refine ⟨(Closing.underway_start grammar items).halts, isClosure items,
    closure_closure grammar items, ?_, ?_⟩
  · exact fun others within => (isClosure items).mono (isClosure others) within
  · exact fun others => (isClosure _).unique ((isClosure items).union (isClosure others))

end Lookahead.LR0
