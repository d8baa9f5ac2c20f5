import Lookahead.Symbol

/-!
# Actions of a shift-reduce parser

Shifts come first in the order of actions, by state; then reductions, by
production; then acceptance.
-/

namespace Lookahead

inductive Action where
  | shift (state : Nat)
  | reduce (nonterminal : Name) (production : Nat)
  | accept
  deriving DecidableEq, Inhabited

namespace Action

def rank : Action → Nat
  | .shift _ => 0
  | .reduce _ _ => 1
  | .accept => 2

def name : Action → Name
  | .reduce nonterminal _ => nonterminal
  | .shift _ | .accept => ""

def index : Action → Nat
  | .shift state => state
  | .reduce _ production => production
  | .accept => 0

theorem eq_of_rank_of_name_of_index {first second : Action} (sameRank : first.rank = second.rank)
    (sameName : first.name = second.name) (sameIndex : first.index = second.index) :
    first = second := by
  cases first <;> cases second <;> simp_all [rank, name, index]

instance : Ord Action :=
  ⟨compareLex (compareOn rank) (compareLex (compareOn name) (compareOn index))⟩

instance : Std.TransOrd Action :=
  inferInstanceAs
    (Std.TransCmp (compareLex (compareOn rank) (compareLex (compareOn name) (compareOn index))))

instance : Std.LawfulEqOrd Action where
  compare_self {action} := by
    show (compareOn rank action action).then
      ((compareOn name action action).then (compareOn index action action)) = .eq
    simp [compareOn]
  eq_of_compare {first second} same := by
    have both : (compareOn rank first second).then
        ((compareOn name first second).then (compareOn index first second)) = .eq := same
    obtain ⟨sameRank, rest⟩ := Ordering.then_eq_eq.mp both
    obtain ⟨sameName, sameIndex⟩ := Ordering.then_eq_eq.mp rest
    exact eq_of_rank_of_name_of_index (Std.LawfulEqCmp.eq_of_compare sameRank)
      (Std.LawfulEqCmp.eq_of_compare sameName) (Std.LawfulEqCmp.eq_of_compare sameIndex)

def text : Action → String
  | .shift state => s!"shift {state}"
  | .reduce nonterminal production => s!"reduce {nonterminal}#{production}"
  | .accept => "accept"

end Action

end Lookahead
