import Lookahead.Symbol

/-!
# Rows of a parse table

A row is the list of all claims on its cells, in order.  The first claim on a
cell has it; later claims for something else clash with it.
-/

namespace Lookahead

/-- The claims on the cells of one row, a cell for each lookahead symbol. -/
structure Row (α : Type) where
  claims : List (Symbol × α)
  deriving DecidableEq, Inhabited

namespace Row

variable {α : Type}

/-- What the cell of a lookahead symbol holds: its first claim. -/
def get? (row : Row α) (lookahead : Symbol) : Option α :=
  (row.claims.find? fun claim => decide (claim.1 = lookahead)).map Prod.snd

def lookaheads (row : Row α) : SymbolSet := .ofList (row.claims.map Prod.fst)

def cells (row : Row α) : List (Symbol × α) :=
  row.lookaheads.toList.filterMap fun lookahead =>
    (row.get? lookahead).map fun value => (lookahead, value)

/-- A claim on a cell that a different claim has. -/
structure Contest (α : Type) where
  lookahead : Symbol
  existing : α
  incoming : α

def contests [DecidableEq α] (row : Row α) : List (Contest α) :=
  row.claims.filterMap fun (lookahead, incoming) =>
    (row.get? lookahead).bind fun existing =>
      if existing = incoming then none else some ⟨lookahead, existing, incoming⟩

theorem mem_claims_of_get? (row : Row α) (lookahead : Symbol) (value : α)
    (found : row.get? lookahead = some value) : (lookahead, value) ∈ row.claims := by
  obtain ⟨⟨symbol, claimed⟩, first, same⟩ := Option.map_eq_some_iff.mp found
  have isSymbol := List.find?_some first
  simp only [decide_eq_true_eq] at isSymbol same
  subst isSymbol same
  exact List.mem_of_find?_eq_some first

theorem get?_ne_none_iff (row : Row α) (lookahead : Symbol) :
    row.get? lookahead ≠ none ↔ ∃ value, (lookahead, value) ∈ row.claims := by
  unfold get?
  rw [ne_eq, Option.map_eq_none_iff, List.find?_eq_none]
  simp only [decide_eq_true_eq, Classical.not_forall, Classical.not_not]
  constructor
  · rintro ⟨⟨symbol, value⟩, found, same⟩
    exact ⟨value, same ▸ found⟩
  · rintro ⟨value, found⟩
    exact ⟨(lookahead, value), found, rfl⟩

/-- Without contests every claim has its cell. -/
theorem get?_of_mem_claims [DecidableEq α] (row : Row α) (peaceful : row.contests = [])
    (lookahead : Symbol) (value : α) (claimed : (lookahead, value) ∈ row.claims) :
    row.get? lookahead = some value := by
  cases first : row.get? lookahead with
  | none => exact absurd first ((row.get?_ne_none_iff lookahead).mpr ⟨value, claimed⟩)
  | some existing =>
      have quiet := List.filterMap_eq_nil_iff.mp peaceful (lookahead, value) claimed
      simp only [first, Option.bind_some] at quiet
      split at quiet
      · rename_i same
        rw [same]
      · exact absurd quiet (by simp)

/-- There are no contests exactly when all claims on a cell agree. -/
theorem contests_eq_nil_iff [DecidableEq α] (row : Row α) : row.contests = [] ↔
    ∀ lookahead first second, (lookahead, first) ∈ row.claims →
      (lookahead, second) ∈ row.claims → first = second := by
  constructor
  · intro peaceful lookahead first second one other
    have found := row.get?_of_mem_claims peaceful lookahead first one
    rw [row.get?_of_mem_claims peaceful lookahead second other] at found
    exact (Option.some.inj found).symm
  · intro agree
    refine List.filterMap_eq_nil_iff.mpr ?_
    rintro ⟨lookahead, incoming⟩ claimed
    cases found : row.get? lookahead with
    | none => simp only [found, Option.bind_none]
    | some existing =>
        have same := agree lookahead existing incoming (row.mem_claims_of_get? _ _ found) claimed
        simp only [found, Option.bind_some, same, if_true]

end Row

end Lookahead
