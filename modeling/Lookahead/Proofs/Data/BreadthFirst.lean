import Lookahead.Data.Exploration

/-!
# The order of a breadth-first exploration

An exploration lists the seeds and then, node by node in its own order, the successors,
each where it comes up first.  So every node behind the seeds is a successor of an earlier
one, and nodes come in the order in which they come up first among the successors.
-/

namespace Lookahead.Exploration

variable {α : Type} [DecidableEq α]

/-- What is fresh depends on which values are known, not on their order. -/
theorem fresh_congr {known other : List α} (same : ∀ value, value ∈ known ↔ value ∈ other)
    (values : List α) : fresh known values = fresh other values := by
  induction values generalizing known other with
  | nil => rfl
  | cons head rest ih =>
      simp only [fresh, same head]
      split
      · exact ih same
      · refine congrArg (head :: ·) (ih fun value => ?_)
        rw [List.mem_cons, List.mem_cons, same]

theorem fresh_append (known first second : List α) :
    fresh known (first ++ second) = fresh known first ++ fresh (known ++ fresh known first) second := by
  induction first generalizing known with
  | nil => simp [fresh]
  | cons head rest ih =>
      simp only [List.cons_append, fresh]
      split
      · exact ih known
      · rw [ih, List.cons_append]
        refine congrArg (head :: ·) (congrArg (fresh (head :: known) rest ++ ·) (fresh_congr ?_ second))
        intro value
        simp only [List.mem_append, List.mem_cons]
        exact or_left_comm

/-- Fresh values come in the order in which they occur first. -/
theorem mem_of_fresh_eq_append {known before after front back : List α} {value other : α}
    (listed : fresh known (before ++ value :: after) = front ++ value :: back)
    (earlier : other ∈ front) : other ∈ before := by
  induction before generalizing known front with
  | nil =>
      have nodup := nodup_fresh known (value :: after)
      have new : value ∉ known := by
        have inside : value ∈ fresh known ([] ++ value :: after) := by
          rw [listed]
          exact List.mem_append_right front List.mem_cons_self
        exact ((mem_fresh _ _ _).mp inside).2
      cases front with
      | nil => exact absurd earlier List.not_mem_nil
      | cons head rest =>
          rw [List.nil_append] at listed
          rw [listed] at nodup
          rw [fresh, if_neg new] at listed
          rw [← (List.cons.inj listed).1] at nodup
          exact absurd nodup (by simp)
  | cons head rest ih =>
      rw [List.cons_append, fresh] at listed
      split at listed
      · exact List.mem_cons_of_mem head (ih listed earlier)
      · cases front with
        | nil => exact absurd earlier List.not_mem_nil
        | cons first others =>
            obtain ⟨isHead, listed⟩ := List.cons.inj listed
            rcases List.mem_cons.mp earlier with here | later
            · exact List.mem_cons.mpr (.inl (here.trans isHead.symm))
            · exact List.mem_cons_of_mem head (ih listed later)

/-- Every node of a list is a seed or a successor of a node before it. -/
def Descends (next : α → List α) (seeds nodes : List α) : Prop :=
  ∀ (place : Nat) (node : α), nodes[place]? = some node →
    node ∈ seeds ∨ ∃ (earlier : Nat) (parent : α), earlier < place ∧
      nodes[earlier]? = some parent ∧ node ∈ next parent

section Walk

variable {next : α → List α} {P : α → Prop} {bound : Nat} {finite : AtMost bound P}
  {closed : ∀ node, P node → ∀ successor ∈ next node, P successor} {seeds : List α}

/-- What is known stays the seeds and the successors of what is done, each where it occurs first. -/
theorem walk_eq_fresh (done pending : List α) (nodup : (done ++ pending).Nodup)
    (within : ∀ node ∈ done ++ pending, P node)
    (listed : done ++ pending = fresh [] (seeds ++ done.flatMap next)) :
    walk next finite closed done pending nodup within =
      fresh [] (seeds ++ (walk next finite closed done pending nodup within).flatMap next) := by
  fun_induction walk next finite closed done pending nodup within with
  | case1 done => simpa using listed
  | case2 done node rest nodup within _ _ ih =>
      refine ih ?_
      have step := fresh_append [] (seeds ++ done.flatMap next) (next node)
      rw [← listed, List.nil_append, List.append_assoc] at step
      rw [List.flatMap_append, List.flatMap_singleton, step]
      simp

/-- Whatever joins the known nodes is a successor of the node that is expanded. -/
theorem descends_walk (done pending : List α) (nodup : (done ++ pending).Nodup)
    (within : ∀ node ∈ done ++ pending, P node) (descends : Descends next seeds (done ++ pending)) :
    Descends next seeds (walk next finite closed done pending nodup within) := by
  fun_induction walk next finite closed done pending nodup within with
  | case1 done => simpa using descends
  | case2 done node rest nodup within _ _ ih =>
      apply ih
      have same : done ++ [node] ++ (rest ++ fresh (done ++ node :: rest) (next node)) =
          (done ++ node :: rest) ++ fresh (done ++ node :: rest) (next node) := by simp
      rw [same]
      intro place other found
      by_cases old : place < (done ++ node :: rest).length
      · rw [List.getElem?_append_left old] at found
        rcases descends place other found with isSeed | ⟨earlier, parent, less, isParent, follows⟩
        · exact .inl isSeed
        · exact .inr ⟨earlier, parent, less,
            (List.getElem?_append_left (Nat.lt_trans less old)).trans isParent, follows⟩
      · rw [List.getElem?_append_right (Nat.le_of_not_lt old)] at found
        have new := (mem_fresh _ _ _).mp (List.mem_of_getElem? found)
        refine .inr ⟨done.length, node, ?_, ?_, new.1⟩
        · rw [List.length_append, List.length_cons] at old
          omega
        · simp

end Walk

section Explore

variable {next : α → List α} {P : α → Prop} {bound : Nat} {finite : AtMost bound P}
  {closed : ∀ node, P node → ∀ successor ∈ next node, P successor}
  {seeds : List α} {seeded : ∀ node ∈ seeds, P node}

/-- An exploration is the seeds and its own nodes' successors, each where it occurs first. -/
theorem explore_eq_fresh : explore next finite closed seeds seeded =
    fresh [] (seeds ++ (explore next finite closed seeds seeded).flatMap next) :=
  walk_eq_fresh [] (fresh [] seeds) _ _ (by simp)

/-- Every node of an exploration is a seed or a successor of an earlier node. -/
theorem descends_explore : Descends next seeds (explore next finite closed seeds seeded) := by
  refine descends_walk [] (fresh [] seeds) _ _ fun place node found => .inl ?_
  exact ((mem_fresh [] seeds node).mp (List.mem_of_getElem? found)).1

/-- What comes before a node comes up before any mention of the node as a successor. -/
theorem mem_of_explore_eq_append {before after front back : List α} {node other : α}
    (successors : (explore next finite closed seeds seeded).flatMap next = before ++ node :: after)
    (listed : explore next finite closed seeds seeded = front ++ node :: back)
    (earlier : other ∈ front) : other ∈ seeds ∨ other ∈ before := by
  rw [explore_eq_fresh, successors, ← List.append_assoc] at listed
  exact List.mem_append.mp (mem_of_fresh_eq_append listed earlier)

end Explore

end Lookahead.Exploration
