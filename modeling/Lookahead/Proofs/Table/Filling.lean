import Lookahead.Proofs.Data.Keys
import Lookahead.Table.Conflict

/-!
# Filling cells claim by claim

Cells can be filled claim by claim: a free cell takes the first claim on it, and a later
claim for something else is a clash.  What comes of it depends on the claims on each cell
and on the first of them, and not on the order of the others.
-/

namespace Lookahead

section Checked

variable {Place Claim Table : Type}

theorem map_checked {Cells : Type} (view : Table → Cells) (table : Table) (conflicts : List Conflict) :
    (checked table conflicts).map view = checked (view table) conflicts := by
  unfold checked
  split
  · rfl
  · rfl

theorem checked_congr (table : Table) {conflicts others : List Conflict}
    (same : ∀ conflict, conflict ∈ conflicts ↔ conflict ∈ others) :
    checked table conflicts = checked table others := by
  have sameReport : SortedSet.ofList conflicts = SortedSet.ofList others :=
    SortedSet.ext fun conflict => by rw [SortedSet.mem_ofList, SortedSet.mem_ofList, same]
  have sameEmpty : conflicts.isEmpty = others.isEmpty := by
    rw [Bool.eq_iff_iff, List.isEmpty_iff, List.isEmpty_iff, List.eq_nil_iff_forall_not_mem,
      List.eq_nil_iff_forall_not_mem]
    exact forall_congr' fun conflict => not_congr (same conflict)
  rw [checked, checked, sameEmpty, sameReport]

theorem exists_checked_eq_ok_iff {table : Table} {conflicts : List Conflict} :
    (∃ result, checked table conflicts = .ok result) ↔ conflicts = [] := by
  constructor
  · rintro ⟨result, ok⟩
    exact (eq_of_checked_eq_ok ok).2
  · rintro rfl
    exact ⟨table, rfl⟩

theorem mem_report_iff {table : Table} {conflicts : List Conflict} {report : ConflictReport}
    (refused : checked table conflicts = .error report) (conflict : Conflict) :
    conflict ∈ report ↔ conflict ∈ conflicts := by
  unfold checked at refused
  split at refused
  · exact absurd refused (by simp)
  · rw [← Except.error.inj refused, SortedSet.mem_ofList]

/-- A report on clashes has a conflict for each of them. -/
theorem mem_report_iff_exists {table : Table} {refusal : Clash Place Claim → Conflict}
    {clashes : List (Clash Place Claim)} {report : ConflictReport}
    (refused : checked table (clashes.map refusal) = .error report) (conflict : Conflict) :
    conflict ∈ report ↔ ∃ place lookahead existing incoming,
      conflict = refusal ⟨place, lookahead, existing, incoming⟩ ∧
        ⟨place, lookahead, existing, incoming⟩ ∈ clashes := by
  rw [mem_report_iff refused, List.mem_map]
  constructor
  · rintro ⟨⟨place, lookahead, existing, incoming⟩, inside, rfl⟩
    exact ⟨place, lookahead, existing, incoming, rfl, inside⟩
  · rintro ⟨place, lookahead, existing, incoming, rfl, inside⟩
    exact ⟨_, inside, rfl⟩

end Checked

variable {Place Claim : Type} [DecidableEq Place]

section Placed

variable {place : Place} {lookahead : Symbol} {claim : Claim}

def placed (rows : List (Place × Row Claim)) : List ((Place × Symbol) × Claim) :=
  rows.flatMap fun row => row.2.claims.map fun made => ((row.1, made.1), made.2)

omit [DecidableEq Place] in
theorem mem_placed {rows : List (Place × Row Claim)} :
    ((place, lookahead), claim) ∈ placed rows ↔
      ∃ row, (place, row) ∈ rows ∧ (lookahead, claim) ∈ row.claims := by
  simp only [placed, List.mem_flatMap, List.mem_map, Prod.exists, Prod.mk.injEq]
  constructor
  · rintro ⟨_, row, inside, _, _, made, ⟨rfl, rfl⟩, rfl⟩
    exact ⟨row, inside, made⟩
  · rintro ⟨row, inside, made⟩
    exact ⟨place, row, inside, lookahead, claim, made, ⟨rfl, rfl⟩, rfl⟩

theorem firstAt?_row (row : Row Claim) (owner place : Place) (lookahead : Symbol) :
    firstAt? (row.claims.map fun made => ((owner, made.1), made.2)) (place, lookahead) =
      if owner = place then row.get? lookahead else none := by
  unfold Row.get?
  induction row.claims with
  | nil => simp [firstAt?, findKey?]
  | cons head rest ih =>
      rw [List.map_cons, firstAt?_cons, ih, List.find?_cons]
      by_cases here : owner = place
      · by_cases same : head.1 = lookahead
        · simp [here, same]
        · simp [here, same]
      · simp [here]

/-- Among rows at different places, a cell has the first claim of the row at its place. -/
theorem firstAt?_placed {rows : List (Place × Row Claim)} (nodup : (rows.map Prod.fst).Nodup)
    (place : Place) (lookahead : Symbol) :
    firstAt? (placed rows) (place, lookahead) =
      (firstAt? rows place).bind fun row => row.get? lookahead := by
  induction rows with
  | nil => rfl
  | cons head rest ih =>
      obtain ⟨headFresh, restNodup⟩ := List.nodup_cons.mp nodup
      have split : placed (head :: rest) =
          (head.2.claims.map fun made => ((head.1, made.1), made.2)) ++ placed rest := rfl
      rw [split, firstAt?_append, firstAt?_row, ih restNodup, firstAt?_cons]
      by_cases here : head.1 = place
      · have restSilent : firstAt? rest place = none := by
          refine firstAt?_eq_none_iff.mpr fun row inside => headFresh ?_
          exact here ▸ List.mem_map_of_mem inside
        rw [if_pos here, if_pos here, restSilent, Option.bind_none, Option.or_none, Option.bind_some]
      · rw [if_neg here, if_neg here, Option.none_or]

end Placed

/-- Cells hold the first claims on them, and each claim that differs from the first is a clash. -/
structure Settled (entries : List ((Place × Symbol) × Claim))
    (cell? : Place → Symbol → Option Claim) (clashes : List (Clash Place Claim)) : Prop where
  cell?_eq : ∀ place lookahead, cell? place lookahead = firstAt? entries (place, lookahead)
  mem_clashes_iff : ∀ place lookahead existing incoming,
    ⟨place, lookahead, existing, incoming⟩ ∈ clashes ↔
      firstAt? entries (place, lookahead) = some existing ∧
        ((place, lookahead), incoming) ∈ entries ∧ existing ≠ incoming

namespace Settled

variable {entries others : List ((Place × Symbol) × Claim)}
variable {cell? otherCell? : Place → Symbol → Option Claim}
variable {clashes otherClashes : List (Clash Place Claim)}

/-- There are no clashes exactly when all claims on a cell agree. -/
theorem clashes_eq_nil_iff (settled : Settled entries cell? clashes) : clashes = [] ↔
    ∀ place lookahead one other, ((place, lookahead), one) ∈ entries →
      ((place, lookahead), other) ∈ entries → one = other := by
  constructor
  · intro quiet place lookahead one other claimed otherClaimed
    obtain ⟨kept, isFirst⟩ := Option.ne_none_iff_exists'.mp fun never =>
      firstAt?_eq_none_iff.mp never one claimed
    have isKept : ∀ claim, ((place, lookahead), claim) ∈ entries → kept = claim := by
      intro claim inside
      refine Classical.byContradiction fun different => ?_
      have clash := (settled.mem_clashes_iff _ _ _ _).mpr ⟨isFirst, inside, different⟩
      exact absurd (quiet ▸ clash) List.not_mem_nil
    rw [← isKept one claimed, ← isKept other otherClaimed]
  · intro agree
    refine List.eq_nil_iff_forall_not_mem.mpr fun ⟨place, lookahead, existing, incoming⟩ inside => ?_
    obtain ⟨isFirst, claimed, different⟩ := (settled.mem_clashes_iff _ _ _ _).mp inside
    exact different (agree place lookahead existing incoming (mem_of_firstAt? isFirst) claimed)

/-- Without clashes the cells hold all claims. -/
theorem cell?_eq_some_iff (settled : Settled entries cell? clashes) (quiet : clashes = [])
    (place : Place) (lookahead : Symbol) (claim : Claim) :
    cell? place lookahead = some claim ↔ ((place, lookahead), claim) ∈ entries := by
  rw [settled.cell?_eq]
  exact firstAt?_eq_some_iff_mem (settled.clashes_eq_nil_iff.mp quiet place lookahead)

/-- Lists with the same claims, and the same first claim on each cell, come to the same. -/
theorem checked_eq (settled : Settled entries cell? clashes)
    (otherSettled : Settled others otherCell? otherClashes)
    (sameFirst : ∀ key, firstAt? entries key = firstAt? others key)
    (sameMembers : ∀ entry, entry ∈ entries ↔ entry ∈ others) {Table : Type}
    (view : (Place → Symbol → Option Claim) → Table) (refusal : Clash Place Claim → Conflict) :
    checked (view cell?) (clashes.map refusal) =
      checked (view otherCell?) (otherClashes.map refusal) := by
  have sameCells : cell? = otherCell? := by
    funext place lookahead
    rw [settled.cell?_eq, otherSettled.cell?_eq, sameFirst]
  have sameClashes : ∀ clash, clash ∈ clashes ↔ clash ∈ otherClashes := by
    rintro ⟨place, lookahead, existing, incoming⟩
    rw [settled.mem_clashes_iff, otherSettled.mem_clashes_iff, sameFirst, sameMembers]
  rw [sameCells]
  refine checked_congr _ fun conflict => ?_
  simp only [List.mem_map, sameClashes]

end Settled

section Rows

variable [DecidableEq Claim]

omit [DecidableEq Place] in
theorem Row.mem_clashes_iff {row : Row Claim} {owner : Place} {clash : Clash Place Claim} :
    clash ∈ row.clashes owner ↔ clash.place = owner ∧
      row.get? clash.lookahead = some clash.existing ∧
        (clash.lookahead, clash.incoming) ∈ row.claims ∧ clash.existing ≠ clash.incoming := by
  obtain ⟨place, lookahead, existing, incoming⟩ := clash
  simp only [Row.clashes, Row.contests, List.mem_map, List.mem_filterMap, Clash.mk.injEq, Prod.exists,
    Option.bind_eq_some_iff]
  constructor
  · rintro ⟨_, ⟨symbol, claim, claimed, kept, isFirst, differs⟩, rfl, rfl, rfl, rfl⟩
    split at differs
    · exact absurd differs (by simp)
    · rename_i different
      obtain rfl := Option.some.inj differs
      exact ⟨rfl, isFirst, claimed, different⟩
  · rintro ⟨rfl, isFirst, claimed, different⟩
    refine ⟨⟨lookahead, existing, incoming⟩, ?_, rfl, rfl, rfl, rfl⟩
    exact ⟨lookahead, incoming, claimed, existing, isFirst, if_neg different⟩

/-- A table of rows at different places is settled by the claims of its rows. -/
theorem settled_placed {rows : List (Place × Row Claim)} (nodup : (rows.map Prod.fst).Nodup) :
    Settled (placed rows)
      (fun place lookahead => (firstAt? rows place).bind fun row => row.get? lookahead)
      (rows.flatMap fun row => row.2.clashes row.1) where
  cell?_eq := fun place lookahead => (firstAt?_placed nodup place lookahead).symm
  mem_clashes_iff := by
    intro place lookahead existing incoming
    have sole : ∀ one other, (place, one) ∈ rows → (place, other) ∈ rows → one = other :=
      fun _ _ => eq_of_nodup_keys nodup
    simp only [List.mem_flatMap, Prod.exists, Row.mem_clashes_iff, firstAt?_placed nodup, mem_placed,
      Option.bind_eq_some_iff, firstAt?_eq_some_iff_mem sole]
    constructor
    · rintro ⟨_, row, inside, rfl, isFirst, claimed, different⟩
      exact ⟨⟨row, inside, isFirst⟩, ⟨row, inside, claimed⟩, different⟩
    · rintro ⟨⟨row, inside, isFirst⟩, ⟨other, otherInside, claimed⟩, different⟩
      obtain rfl := sole row other inside otherInside
      exact ⟨place, row, inside, rfl, isFirst, claimed, different⟩

end Rows

structure Filling (Place Claim : Type) where
  cells : Place × Symbol → Option Claim
  clashes : List (Clash Place Claim)

namespace Filling

variable [DecidableEq Claim]

/-- Make a claim: a free cell takes it, and a different claim that has the cell clashes with it. -/
def enter (work : Filling Place Claim) (entry : (Place × Symbol) × Claim) : Filling Place Claim :=
  match work.cells entry.1 with
  | none => { work with cells := assign work.cells entry }
  | some existing =>
      if existing = entry.2 then work
      else { work with clashes := work.clashes ++ [⟨entry.1.1, entry.1.2, existing, entry.2⟩] }

variable {work : Filling Place Claim} {entry : (Place × Symbol) × Claim}

/-- A cell keeps what it has, and a free cell takes the claim. -/
theorem cells_enter (work : Filling Place Claim) (entry : (Place × Symbol) × Claim)
    (key : Place × Symbol) :
    (work.enter entry).cells key = (work.cells key).or (firstAt? [entry] key) := by
  rw [firstAt?_cons]
  unfold enter
  by_cases same : entry.1 = key
  · subst same
    cases held : work.cells entry.1 with
    | none => simp only [assign, if_true, Option.none_or]
    | some existing =>
        dsimp only
        split
        · exact held
        · exact held
  · rw [if_neg same]
    cases work.cells entry.1 with
    | none => simp only [assign, if_neg same]; exact Option.or_none.symm
    | some existing =>
        dsimp only
        split
        · exact Option.or_none.symm
        · exact Option.or_none.symm

/-- A claim is in its cell afterwards, or clashes with what is there. -/
theorem clashes_enter (work : Filling Place Claim) (entry : (Place × Symbol) × Claim) :
    ∃ kept, (work.enter entry).cells entry.1 = some kept ∧ (work.enter entry).clashes =
      work.clashes ++ if kept = entry.2 then [] else [⟨entry.1.1, entry.1.2, kept, entry.2⟩] := by
  unfold enter
  cases held : work.cells entry.1 with
  | none => exact ⟨entry.2, if_pos rfl, by rw [if_pos rfl, List.append_nil]⟩
  | some existing =>
      refine ⟨existing, ?_⟩
      dsimp only
      split
      · exact ⟨held, (List.append_nil _).symm⟩
      · exact ⟨held, rfl⟩

theorem mem_clashes_enter (work : Filling Place Claim) (entry : (Place × Symbol) × Claim)
    (clash : Clash Place Claim) :
    clash ∈ (work.enter entry).clashes ↔ clash ∈ work.clashes ∨
      (work.enter entry).cells (clash.place, clash.lookahead) = some clash.existing ∧
        ((clash.place, clash.lookahead), clash.incoming) = entry ∧
        clash.existing ≠ clash.incoming := by
  obtain ⟨kept, isKept, isClashes⟩ := clashes_enter work entry
  obtain ⟨⟨place, lookahead⟩, claim⟩ := entry
  obtain ⟨owner, symbol, existing, incoming⟩ := clash
  rw [isClashes, List.mem_append]
  refine or_congr_right ?_
  constructor
  · split
    · exact fun never => absurd never List.not_mem_nil
    · rename_i differs
      intro isClash
      obtain ⟨rfl, rfl, rfl, rfl⟩ := Clash.mk.inj (List.mem_singleton.mp isClash)
      exact ⟨isKept, rfl, differs⟩
  · rintro ⟨isExisting, isEntry, different⟩
    obtain ⟨sameKey, rfl⟩ := Prod.mk.inj isEntry
    obtain ⟨rfl, rfl⟩ := Prod.mk.inj sameKey
    obtain rfl := Option.some.inj (isKept.symm.trans isExisting)
    rw [if_neg different]
    exact List.mem_singleton_self _

/-- Claim after claim, free cells take the first ones. -/
theorem cells_foldl_enter (entries : List ((Place × Symbol) × Claim)) (work : Filling Place Claim)
    (key : Place × Symbol) :
    (entries.foldl enter work).cells key = (work.cells key).or (firstAt? entries key) := by
  induction entries generalizing work with
  | nil => exact Option.or_none.symm
  | cons head rest ih =>
      rw [List.foldl_cons, ih, cells_enter, Option.or_assoc, ← firstAt?_append, List.singleton_append]

/-- Claim after claim, those that differ from what their cells end up with are clashes. -/
theorem mem_clashes_foldl_enter (entries : List ((Place × Symbol) × Claim))
    (work : Filling Place Claim) (clash : Clash Place Claim) :
    clash ∈ (entries.foldl enter work).clashes ↔ clash ∈ work.clashes ∨
      (entries.foldl enter work).cells (clash.place, clash.lookahead) = some clash.existing ∧
        ((clash.place, clash.lookahead), clash.incoming) ∈ entries ∧
        clash.existing ≠ clash.incoming := by
  induction entries generalizing work with
  | nil => simp
  | cons head rest ih =>
      -- The cell of the head is taken when the others come, so that it is as it ends up.
      have settledCell : (rest.foldl enter (work.enter head)).cells head.1 =
          (work.enter head).cells head.1 := by
        obtain ⟨kept, isKept, _⟩ := clashes_enter work head
        rw [cells_foldl_enter, isKept, Option.some_or]
      rw [List.foldl_cons, ih, mem_clashes_enter, or_assoc, List.mem_cons]
      refine or_congr_right ?_
      constructor
      · rintro (⟨isExisting, isHead, different⟩ | ⟨isExisting, later, different⟩)
        · rw [← congrArg Prod.fst isHead] at settledCell
          exact ⟨settledCell.trans isExisting, .inl isHead, different⟩
        · exact ⟨isExisting, .inr later, different⟩
      · rintro ⟨isExisting, isHead | later, different⟩
        · rw [← congrArg Prod.fst isHead] at settledCell
          exact .inl ⟨settledCell.symm.trans isExisting, isHead, different⟩
        · exact .inr ⟨isExisting, later, different⟩

/-- Filling cells that hold some agreed entries is settled by these and the claims together. -/
theorem settled_foldl_enter (start : List ((Place × Symbol) × Claim))
    (sole : ∀ key one other, (key, one) ∈ start → (key, other) ∈ start → one = other)
    (entries : List ((Place × Symbol) × Claim)) :
    Settled (start ++ entries)
      (fun place lookahead => (entries.foldl enter ⟨firstAt? start, []⟩).cells (place, lookahead))
      (entries.foldl enter ⟨firstAt? start, []⟩).clashes where
  cell?_eq := by
    intro place lookahead
    rw [cells_foldl_enter, firstAt?_append]
  mem_clashes_iff := by
    intro place lookahead existing incoming
    rw [mem_clashes_foldl_enter, cells_foldl_enter, ← firstAt?_append, List.mem_append]
    constructor
    · rintro (never | ⟨isExisting, claimed, different⟩)
      · exact absurd never List.not_mem_nil
      · exact ⟨isExisting, .inr claimed, different⟩
    · rintro ⟨isExisting, inStart | claimed, different⟩
      · have isFirst := (firstAt?_eq_some_iff_mem (sole (place, lookahead))).mpr inStart
        rw [firstAt?_append, isFirst, Option.some_or] at isExisting
        exact absurd (Option.some.inj isExisting).symm different
      · exact .inr ⟨isExisting, claimed, different⟩

end Filling

end Lookahead
