/-!
# Breadth-first exploration of a finite graph

The nodes that successor lists reach from given seeds, each once, in the order
in which a breadth-first walk meets them.
-/

namespace Lookahead

/-- No duplicate-free list of values with property `P` is longer than `bound`. -/
def AtMost {α : Type} (bound : Nat) (P : α → Prop) : Prop :=
  ∀ values : List α, values.Nodup → (∀ value ∈ values, P value) → values.length ≤ bound

theorem length_le_of_nodup_of_subset {α : Type} [DecidableEq α] {values all : List α}
    (nodup : values.Nodup) (subset : ∀ value ∈ values, value ∈ all) :
    values.length ≤ all.length := by
  induction values generalizing all with
  | nil => exact Nat.zero_le _
  | cons head rest ih =>
      obtain ⟨headFresh, restNodup⟩ := List.nodup_cons.mp nodup
      have headIn := subset head (by simp)
      have shorter : (all.erase head).length + 1 = all.length := by
        have positive := List.length_pos_of_mem headIn
        have erased := List.length_erase_of_mem headIn
        omega
      have restIn : ∀ value ∈ rest, value ∈ all.erase head := by
        intro value found
        have different : value ≠ head := fun same => headFresh (same ▸ found)
        exact (List.mem_erase_of_ne different).mpr (subset value (by simp [found]))
      have restLength := ih restNodup restIn
      simp only [List.length_cons]
      omega

theorem atMost_of_list {α : Type} [DecidableEq α] {P : α → Prop} (all : List α)
    (complete : ∀ value, P value → value ∈ all) : AtMost all.length P :=
  fun _ nodup within =>
    length_le_of_nodup_of_subset nodup fun value found => complete value (within value found)

namespace Exploration

variable {α : Type} [DecidableEq α]

/-- The values that are not known yet, each once, in order of first occurrence. -/
def fresh (known : List α) : List α → List α
  | [] => []
  | value :: rest =>
      if value ∈ known then fresh known rest else value :: fresh (value :: known) rest

theorem mem_fresh (known values : List α) (value : α) :
    value ∈ fresh known values ↔ value ∈ values ∧ ¬ value ∈ known := by
  induction values generalizing known with
  | nil => simp [fresh]
  | cons head rest ih =>
      unfold fresh
      split
      · rename_i old
        rw [ih]
        constructor
        · rintro ⟨later, new⟩
          exact ⟨List.mem_cons_of_mem _ later, new⟩
        · rintro ⟨found, new⟩
          rcases List.mem_cons.mp found with here | later
          · exact absurd (here ▸ old) new
          · exact ⟨later, new⟩
      · rename_i headNew
        rw [List.mem_cons, ih, List.mem_cons, List.mem_cons]
        constructor
        · rintro (here | ⟨later, new⟩)
          · exact ⟨.inl here, here ▸ headNew⟩
          · exact ⟨.inr later, fun old => new (.inr old)⟩
        · rintro ⟨here | later, new⟩
          · exact .inl here
          · by_cases here : value = head
            · exact .inl here
            · exact .inr ⟨later, fun old => old.elim here new⟩

theorem nodup_fresh (known values : List α) : (fresh known values).Nodup := by
  induction values generalizing known with
  | nil => exact .nil
  | cons head rest ih =>
      unfold fresh
      split
      · exact ih known
      · exact List.nodup_cons.mpr
          ⟨fun found => ((mem_fresh _ _ _).mp found).2 (by simp), ih _⟩

theorem nodup_append_fresh {known : List α} (nodup : known.Nodup) (values : List α) :
    (known ++ fresh known values).Nodup :=
  List.nodup_append.mpr ⟨nodup, nodup_fresh known values, fun _ old other new same =>
    ((mem_fresh known values other).mp new).2 (same ▸ old)⟩

/--
Walk on from the nodes whose successors are in the walk (`done`) and those still to be
expanded (`pending`). All nodes satisfy `P`, of which there are at most `bound`.
-/
def walk (next : α → List α) {P : α → Prop} {bound : Nat} (finite : AtMost bound P)
    (closed : ∀ node, P node → ∀ successor ∈ next node, P successor)
    (done pending : List α) (nodup : (done ++ pending).Nodup)
    (within : ∀ node ∈ done ++ pending, P node) : List α :=
  match pending with
  | [] => done
  | node :: rest =>
      walk next finite closed (done ++ [node])
        (rest ++ fresh (done ++ node :: rest) (next node))
        (by
          have step := nodup_append_fresh nodup (next node)
          simpa [List.append_assoc] using step)
        (by
          intro other found
          have cases : other ∈ done ++ node :: rest ∨
              other ∈ fresh (done ++ node :: rest) (next node) := by
            simp only [List.append_assoc, List.mem_append, List.mem_cons,
              List.not_mem_nil, or_false] at found ⊢
            rcases found with old | here | later | new
            · exact .inl (.inl old)
            · exact .inl (.inr (.inl here))
            · exact .inl (.inr (.inr later))
            · exact .inr new
          rcases cases with old | new
          · exact within other old
          · exact closed node (within node (by simp)) other ((mem_fresh _ _ _).mp new).1)
termination_by bound - done.length
decreasing_by
  have size := finite _ nodup within
  simp only [List.length_append, List.length_cons, List.length_nil] at size ⊢
  omega

section Walk

variable {next : α → List α} {P : α → Prop} {bound : Nat} {finite : AtMost bound P}
  {closed : ∀ node, P node → ∀ successor ∈ next node, P successor}

theorem isPrefix_walk (done pending : List α) (nodup : (done ++ pending).Nodup)
    (within : ∀ node ∈ done ++ pending, P node) :
    (done ++ pending).IsPrefix (walk next finite closed done pending nodup within) := by
  fun_induction walk next finite closed done pending nodup within with
  | case1 done => simp
  | case2 done node rest nodup within _ _ ih =>
      refine List.IsPrefix.trans ?_ ih
      simp

theorem nodup_walk (done pending : List α) (nodup : (done ++ pending).Nodup)
    (within : ∀ node ∈ done ++ pending, P node) :
    (walk next finite closed done pending nodup within).Nodup := by
  fun_induction walk next finite closed done pending nodup within with
  | case1 done nodup => simpa using nodup
  | case2 done node rest nodup within _ _ ih => exact ih

theorem walk_closed (done pending : List α) (nodup : (done ++ pending).Nodup)
    (within : ∀ node ∈ done ++ pending, P node)
    (expanded : ∀ node ∈ done, ∀ successor ∈ next node, successor ∈ done ++ pending) :
    ∀ node ∈ walk next finite closed done pending nodup within,
      ∀ successor ∈ next node, successor ∈ walk next finite closed done pending nodup within := by
  fun_induction walk next finite closed done pending nodup within with
  | case1 done => simpa using expanded
  | case2 done node rest nodup within _ _ ih =>
      refine ih ?_
      intro other found successor follows
      by_cases old : successor ∈ done ++ node :: rest
      · simp only [List.append_assoc, List.mem_append, List.mem_cons, List.not_mem_nil,
          or_false] at old ⊢
        rcases old with before | here | later
        · exact .inl before
        · exact .inr (.inl here)
        · exact .inr (.inr (.inl later))
      · rcases List.mem_append.mp found with before | here
        · exact absurd (expanded other before successor follows) old
        · have same : other = node := by simpa using here
          subst same
          have new := (mem_fresh (done ++ other :: rest) (next other) successor).mpr ⟨follows, old⟩
          simp [new]

theorem of_mem_walk {Q : α → Prop} (step : ∀ node, Q node → ∀ successor ∈ next node, Q successor)
    (done pending : List α) (nodup : (done ++ pending).Nodup)
    (within : ∀ node ∈ done ++ pending, P node) (known : ∀ node ∈ done ++ pending, Q node) :
    ∀ node ∈ walk next finite closed done pending nodup within, Q node := by
  fun_induction walk next finite closed done pending nodup within with
  | case1 done => simpa using known
  | case2 done node rest nodup within _ _ ih =>
      refine ih ?_
      intro other found
      by_cases old : other ∈ done ++ node :: rest
      · exact known other old
      · refine step node (known node (by simp)) other ?_
        simp only [List.append_assoc, List.mem_append, List.mem_cons, List.not_mem_nil,
          or_false] at found old
        rcases found with before | here | later | new
        · exact absurd (.inl before) old
        · exact absurd (.inr (.inl here)) old
        · exact absurd (.inr (.inr later)) old
        · exact ((mem_fresh _ _ _).mp new).1

end Walk

/-- Every node that successor lists reach from the seeds, in breadth-first order. -/
def explore (next : α → List α) {P : α → Prop} {bound : Nat} (finite : AtMost bound P)
    (closed : ∀ node, P node → ∀ successor ∈ next node, P successor)
    (seeds : List α) (seeded : ∀ node ∈ seeds, P node) : List α :=
  walk next finite closed [] (fresh [] seeds) (nodup_fresh [] seeds)
    fun node found => seeded node ((mem_fresh [] seeds node).mp found).1

inductive Reached (next : α → List α) (seeds : List α) : α → Prop where
  | seed {node : α} (found : node ∈ seeds) : Reached next seeds node
  | step {node successor : α} (before : Reached next seeds node)
      (found : successor ∈ next node) : Reached next seeds successor

section Explore

variable {next : α → List α} {P : α → Prop} {bound : Nat} {finite : AtMost bound P}
  {closed : ∀ node, P node → ∀ successor ∈ next node, P successor}
  {seeds : List α} {seeded : ∀ node ∈ seeds, P node}

theorem nodup_explore : (explore next finite closed seeds seeded).Nodup :=
  nodup_walk ..

/-- The seeds come first, each once. -/
theorem isPrefix_explore : (fresh [] seeds).IsPrefix (explore next finite closed seeds seeded) :=
  isPrefix_walk [] (fresh [] seeds) (nodup_fresh [] seeds) _

/-- An exploration lists exactly the nodes that can be reached. -/
theorem mem_explore (node : α) :
    node ∈ explore next finite closed seeds seeded ↔ Reached next seeds node := by
  constructor
  · refine of_mem_walk (fun node before successor found => .step before found) _ _ _ _ ?_ node
    intro seed found
    exact .seed ((mem_fresh [] seeds seed).mp (by simpa using found)).1
  · intro reached
    induction reached with
    | seed found =>
        refine (isPrefix_walk ..).mem ?_
        simpa using (mem_fresh [] seeds _).mpr ⟨found, List.not_mem_nil⟩
    | step _ found ih => exact walk_closed _ _ _ _ (by simp) _ ih _ found

end Explore

end Exploration

end Lookahead
