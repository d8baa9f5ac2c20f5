import Lookahead.Table.Action
import Lookahead.Table.Row

/-!
# Conflicts between claims on table cells

A report holds each conflict once, in order: conflicts of predictive tables
first, then those of shift-reduce tables, each by row, lookahead and claims.
-/

namespace Lookahead

structure Clash (Place Claim : Type) where
  place : Place
  lookahead : Symbol
  existing : Claim
  incoming : Claim
  deriving DecidableEq, Inhabited

namespace Clash

variable {Place Claim : Type} [Ord Place] [Ord Claim]

instance : Ord (Clash Place Claim) :=
  ⟨compareLex (compareOn place) (compareLex (compareOn lookahead)
    (compareLex (compareOn existing) (compareOn incoming)))⟩

instance [Std.TransOrd Place] [Std.TransOrd Claim] : Std.TransOrd (Clash Place Claim) :=
  inferInstanceAs (Std.TransCmp (compareLex (compareOn place) (compareLex (compareOn lookahead)
    (compareLex (compareOn existing) (compareOn incoming)))))

instance [Std.LawfulEqOrd Place] [Std.LawfulEqOrd Claim] :
    Std.LawfulEqOrd (Clash Place Claim) where
  compare_self {clash} := by
    show (compareOn place clash clash).then ((compareOn lookahead clash clash).then
      ((compareOn existing clash clash).then (compareOn incoming clash clash))) = .eq
    simp [compareOn]
  eq_of_compare {first second} same := by
    have parts : (compareOn place first second).then ((compareOn lookahead first second).then
        ((compareOn existing first second).then (compareOn incoming first second))) = .eq := same
    simp only [Ordering.then_eq_eq, compareOn, Std.LawfulEqCmp.compare_eq_iff_eq] at parts
    obtain ⟨samePlace, sameLookahead, sameExisting, sameIncoming⟩ := parts
    cases first; cases second; simp_all

end Clash

def Row.clashes {Place Claim : Type} [DecidableEq Claim] (row : Row Claim) (place : Place) :
    List (Clash Place Claim) :=
  row.contests.map fun contest =>
    ⟨place, contest.lookahead, contest.existing, contest.incoming⟩

theorem Row.contests_eq_nil_of_clashes {Place Claim : Type} [DecidableEq Claim] {row : Row Claim}
    {place : Place} (quiet : row.clashes place = []) : row.contests = [] :=
  List.map_eq_nil_iff.mp quiet

inductive Conflict where
  | predictive (clash : Clash Name Nat)
  | shiftReduce (clash : Clash Nat Action)
  deriving DecidableEq, Inhabited

namespace Conflict

instance : Ord Conflict where
  compare
    | .predictive first, .predictive second => compare first second
    | .predictive _, .shiftReduce _ => .lt
    | .shiftReduce _, .predictive _ => .gt
    | .shiftReduce first, .shiftReduce second => compare first second

instance : Std.TransOrd Conflict where
  eq_swap {first second} := by
    cases first <;> cases second
    · exact @Std.OrientedCmp.eq_swap (Clash Name Nat) compare _ _ _
    · rfl
    · rfl
    · exact @Std.OrientedCmp.eq_swap (Clash Nat Action) compare _ _ _
  isLE_trans {first second third} lower upper := by
    cases first <;> cases second <;> cases third
    · exact @Std.TransCmp.isLE_trans (Clash Name Nat) compare _ _ _ _ lower upper
    · rfl
    · exact absurd upper (by simp [compare])
    · rfl
    · exact absurd lower (by simp [compare])
    · exact absurd lower (by simp [compare])
    · exact absurd upper (by simp [compare])
    · exact @Std.TransCmp.isLE_trans (Clash Nat Action) compare _ _ _ _ lower upper

instance : Std.LawfulEqOrd Conflict where
  compare_self {conflict} := by
    cases conflict
    · exact @Std.ReflCmp.compare_self (Clash Name Nat) compare _ _
    · exact @Std.ReflCmp.compare_self (Clash Nat Action) compare _ _
  eq_of_compare {first second} same := by
    cases first <;> cases second
    · exact congrArg predictive (@Std.LawfulEqCmp.eq_of_compare (Clash Name Nat) compare _ _ _ same)
    · exact absurd same (by simp [compare])
    · exact absurd same (by simp [compare])
    · exact congrArg shiftReduce
        (@Std.LawfulEqCmp.eq_of_compare (Clash Nat Action) compare _ _ _ same)

def message : Conflict → String
  | .predictive clash =>
      s!"LL(1) cell ({clash.place}, {clash.lookahead.text}) claimed by " ++
        s!"productions {clash.existing} and {clash.incoming}"
  | .shiftReduce clash =>
      s!"SLR(1) cell ({clash.place}, {clash.lookahead.text}) claimed by " ++
        s!"{clash.existing.text} and {clash.incoming.text}"

end Conflict

abbrev ConflictReport := SortedSet Conflict

def conflictSummary (count : Nat) : String := s!"{count} conflicting table cells"

def checked {Table : Type} (table : Table) (conflicts : List Conflict) :
    Except ConflictReport Table :=
  if conflicts.isEmpty then .ok table else .error (.ofList conflicts)

theorem eq_of_checked_eq_ok {Table : Type} {table result : Table} {conflicts : List Conflict}
    (ok : checked table conflicts = .ok result) : result = table ∧ conflicts = [] := by
  unfold checked at ok
  split at ok
  · rename_i isEmpty
    exact ⟨(Except.ok.inj ok).symm, List.isEmpty_iff.mp isEmpty⟩
  · exact absurd ok (by simp)

theorem isOk_checked_iff {Table : Type} (table : Table) (conflicts : List Conflict) :
    (checked table conflicts).isOk = true ↔ conflicts = [] := by
  unfold checked
  cases conflicts with
  | nil => exact ⟨fun _ => rfl, fun _ => rfl⟩
  | cons head rest =>
      constructor
      · exact fun never => absurd never (by simp [Except.isOk, Except.toBool])
      · exact fun never => absurd never (by simp)

end Lookahead
