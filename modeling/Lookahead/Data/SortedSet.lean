/-!
# Finite sets as strictly increasing lists

A finite set over a linearly ordered type is stored as its one strictly
increasing list, so two sets with the same members are the same set.
-/

namespace Lookahead

/-- A finite set, stored as the strictly increasing list of its members. -/
structure SortedSet (α : Type) [Ord α] where
  toList : List α
  increasing : toList.Pairwise fun a b => compare a b = .lt

namespace SortedSet

variable {α : Type} [Ord α]

instance [DecidableEq α] : DecidableEq (SortedSet α)
  | ⟨first, _⟩, ⟨second, _⟩ =>
      if same : first = second then .isTrue (by subst same; rfl)
      else .isFalse fun equal => same (congrArg toList equal)

instance : Membership α (SortedSet α) where
  mem set member := member ∈ set.toList

instance [DecidableEq α] (member : α) (set : SortedSet α) : Decidable (member ∈ set) :=
  inferInstanceAs (Decidable (member ∈ set.toList))

theorem mem_toList (member : α) (set : SortedSet α) :
    member ∈ set.toList ↔ member ∈ set := Iff.rfl

instance : HasSubset (SortedSet α) where
  Subset first second := ∀ member, member ∈ first → member ∈ second

instance [DecidableEq α] (first second : SortedSet α) : Decidable (first ⊆ second) :=
  inferInstanceAs (Decidable (∀ member, member ∈ first.toList → member ∈ second))

def size (set : SortedSet α) : Nat := set.toList.length

def empty : SortedSet α := ⟨[], .nil⟩

instance : EmptyCollection (SortedSet α) := ⟨empty⟩

instance : Inhabited (SortedSet α) := ⟨empty⟩

@[simp] theorem not_mem_empty (member : α) : ¬ member ∈ (∅ : SortedSet α) :=
  List.not_mem_nil

/-- Put a value before the first larger member of an increasing list, unless it is there already. -/
def insertSorted (value : α) : List α → List α
  | [] => [value]
  | head :: rest =>
      match compare value head with
      | .lt => value :: head :: rest
      | .eq => head :: rest
      | .gt => head :: insertSorted value rest

section Lawful

variable [Std.LawfulEqOrd α]

theorem mem_insertSorted (value member : α) (members : List α) :
    member ∈ insertSorted value members ↔ member = value ∨ member ∈ members := by
  induction members with
  | nil => simp [insertSorted]
  | cons head rest ih =>
      unfold insertSorted
      split
      · simp
      · rename_i same
        have equal : value = head := Std.LawfulEqCmp.eq_of_compare same
        simp [equal]
      · simp only [List.mem_cons, ih]
        constructor
        · rintro (here | here | later)
          · exact .inr (.inl here)
          · exact .inl here
          · exact .inr (.inr later)
        · rintro (here | here | later)
          · exact .inr (.inl here)
          · exact .inl here
          · exact .inr (.inr later)

variable [Std.TransOrd α]

theorem insertSorted_increasing (value : α) (members : List α)
    (increasing : members.Pairwise fun a b => compare a b = .lt) :
    (insertSorted value members).Pairwise fun a b => compare a b = .lt := by
  induction members with
  | nil => simp [insertSorted]
  | cons head rest ih =>
      obtain ⟨below, restIncreasing⟩ := List.pairwise_cons.mp increasing
      unfold insertSorted
      split
      · rename_i less
        refine List.pairwise_cons.mpr ⟨?_, increasing⟩
        intro member found
        rcases List.mem_cons.mp found with here | later
        · exact here ▸ less
        · exact Std.TransCmp.lt_trans less (below member later)
      · exact increasing
      · rename_i greater
        refine List.pairwise_cons.mpr ⟨?_, ih restIncreasing⟩
        intro member found
        rcases (mem_insertSorted value member rest).mp found with here | later
        · exact here ▸ Std.OrientedCmp.gt_iff_lt.mp greater
        · exact below member later

def insert (value : α) (set : SortedSet α) : SortedSet α :=
  ⟨insertSorted value set.toList, insertSorted_increasing value set.toList set.increasing⟩

@[simp] theorem mem_insert (value member : α) (set : SortedSet α) :
    member ∈ set.insert value ↔ member = value ∨ member ∈ set :=
  mem_insertSorted value member set.toList

def insertAll (values : List α) (set : SortedSet α) : SortedSet α :=
  values.foldl (fun found value => found.insert value) set

@[simp] theorem mem_insertAll (values : List α) (member : α) (set : SortedSet α) :
    member ∈ set.insertAll values ↔ member ∈ values ∨ member ∈ set := by
  induction values generalizing set with
  | nil => simp [insertAll]
  | cons head rest ih =>
      have step := ih (set.insert head)
      simp only [insertAll, List.foldl_cons] at step ⊢
      simp only [step, mem_insert, List.mem_cons]
      constructor
      · rintro (later | here | before)
        · exact .inl (.inr later)
        · exact .inl (.inl here)
        · exact .inr before
      · rintro ((here | later) | before)
        · exact .inr (.inl here)
        · exact .inl later
        · exact .inr (.inr before)

def ofList (values : List α) : SortedSet α := insertAll values ∅

@[simp] theorem mem_ofList (values : List α) (member : α) :
    member ∈ ofList values ↔ member ∈ values := by
  simp [ofList]

def singleton (value : α) : SortedSet α := ofList [value]

@[simp] theorem mem_singleton (value member : α) : member ∈ singleton value ↔ member = value := by
  simp [singleton]

instance : Union (SortedSet α) where
  union first second := first.insertAll second.toList

@[simp] theorem mem_union (first second : SortedSet α) (member : α) :
    member ∈ first ∪ second ↔ member ∈ first ∨ member ∈ second :=
  (mem_insertAll second.toList member first).trans or_comm

end Lawful

def filter (test : α → Bool) (set : SortedSet α) : SortedSet α :=
  ⟨set.toList.filter test, set.increasing.filter test⟩

@[simp] theorem mem_filter (test : α → Bool) (set : SortedSet α) (member : α) :
    member ∈ set.filter test ↔ member ∈ set ∧ test member = true :=
  List.mem_filter

section Extensionality

variable [Std.TransOrd α]

theorem compare_self (value : α) : compare value value = .eq := Std.ReflCmp.compare_self

theorem sublist_of_increasing_of_subset {first second : List α}
    (firstIncreasing : first.Pairwise fun a b => compare a b = .lt)
    (secondIncreasing : second.Pairwise fun a b => compare a b = .lt)
    (subset : ∀ member, member ∈ first → member ∈ second) : first.Sublist second := by
  induction second generalizing first with
  | nil =>
      cases first with
      | nil => exact .slnil
      | cons head rest => exact absurd (subset head (by simp)) (by simp)
  | cons bound tail ih =>
      obtain ⟨boundBelow, tailIncreasing⟩ := List.pairwise_cons.mp secondIncreasing
      cases first with
      | nil => exact List.nil_sublist _
      | cons head rest =>
          obtain ⟨headBelow, restIncreasing⟩ := List.pairwise_cons.mp firstIncreasing
          rcases List.mem_cons.mp (subset head (by simp)) with here | later
          · subst here
            refine .cons_cons _ (ih restIncreasing tailIncreasing ?_)
            intro member found
            rcases List.mem_cons.mp (subset member (by simp [found])) with same | inTail
            · have less := headBelow member found
              rw [same, compare_self] at less
              exact Ordering.noConfusion less
            · exact inTail
          · refine .cons _ (ih firstIncreasing tailIncreasing ?_)
            intro member found
            rcases List.mem_cons.mp (subset member found) with same | inTail
            · subst same
              rcases List.mem_cons.mp found with isHead | inRest
              · exact isHead ▸ later
              · have up := headBelow member inRest
                have down := boundBelow head later
                exact absurd (Std.TransCmp.lt_trans up down) (by
                  rw [compare_self]; simp)
            · exact inTail

theorem sublist_of_subset {first second : SortedSet α} (subset : first ⊆ second) :
    first.toList.Sublist second.toList :=
  sublist_of_increasing_of_subset first.increasing second.increasing subset

theorem size_le_of_subset {first second : SortedSet α} (subset : first ⊆ second) :
    first.size ≤ second.size :=
  (sublist_of_subset subset).length_le

theorem eq_of_subset_of_size_le {first second : SortedSet α} (subset : first ⊆ second)
    (size_le : second.size ≤ first.size) : first = second := by
  have same := (sublist_of_subset subset).eq_of_length_le size_le
  cases first; cases second; subst same; rfl

/-- Sets with the same members are equal. -/
theorem ext {first second : SortedSet α} (same : ∀ member, member ∈ first ↔ member ∈ second) :
    first = second :=
  eq_of_subset_of_size_le (fun member => (same member).mp)
    (size_le_of_subset fun member => (same member).mpr)

end Extensionality

end SortedSet

/-- The values of a list in ascending order, repeated ones kept. -/
def inOrder {α : Type} [Ord α] (values : List α) : List α :=
  values.mergeSort fun first second => (compare first second).isLE

end Lookahead
