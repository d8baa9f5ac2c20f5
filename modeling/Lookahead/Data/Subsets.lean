import Lookahead.Data.Exploration
import Lookahead.Data.SortedSet

/-!
# Subsets of a finite set

There are finitely many of them, so a walk over subsets ends.
-/

namespace Lookahead

/-- The lists whose members are taken from a list in its order. -/
def sublists {α : Type} : List α → List (List α)
  | [] => [[]]
  | head :: rest => sublists rest ++ (sublists rest).map (head :: ·)

theorem length_sublists {α : Type} (values : List α) :
    (sublists values).length = Nat.pow 2 values.length := by
  induction values with
  | nil => rfl
  | cons head rest ih =>
      have double : Nat.pow 2 (rest.length + 1) = Nat.pow 2 rest.length * 2 := rfl
      simp only [sublists, List.length_append, List.length_map, ih, List.length_cons, double]
      omega

theorem mem_sublists_of_sublist {α : Type} {part whole : List α} (sublist : part.Sublist whole) :
    part ∈ sublists whole := by
  induction sublist with
  | slnil => simp [sublists]
  | cons head _ ih => exact List.mem_append.mpr (.inl ih)
  | cons_cons head _ ih => exact List.mem_append.mpr (.inr (List.mem_map.mpr ⟨_, ih, rfl⟩))

/-- A finite set of `n` members has `2 ^ n` subsets at most. -/
theorem SortedSet.atMost_subsets {α : Type} [Ord α] [Std.TransOrd α] [DecidableEq α]
    (whole : SortedSet α) : AtMost (Nat.pow 2 whole.size) fun set : SortedSet α => set ⊆ whole := by
  intro sets nodup within
  rw [show Nat.pow 2 whole.size = (sublists whole.toList).length from
    (length_sublists whole.toList).symm, ← List.length_map (f := SortedSet.toList)]
  refine length_le_of_nodup_of_subset ?_ ?_
  · refine List.pairwise_map.mpr (nodup.imp ?_)
    intro first second different same
    exact different (by cases first; cases second; simp only at same; subst same; rfl)
  · intro members found
    obtain ⟨set, inside, same⟩ := List.mem_map.mp found
    exact same ▸ mem_sublists_of_sublist (SortedSet.sublist_of_subset (within set inside))

end Lookahead
