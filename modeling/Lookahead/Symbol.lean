import Lookahead.Data.SortedSet

/-!
# Grammar symbols

Terminals and nonterminals carry names; the empty-word symbol and the
end-of-input marker do not.  The order puts terminals first, then
nonterminals, then the two markers, and compares names by code point.
-/

namespace Lookahead

abbrev Name := String

/-- One symbol of a production body, of an input or of a lookahead set. -/
inductive Symbol where
  | terminal (name : Name)
  | nonterminal (name : Name)
  | epsilon
  | endMarker
  deriving DecidableEq, Inhabited

namespace Symbol

def rank : Symbol → Nat
  | .terminal _ => 0
  | .nonterminal _ => 1
  | .epsilon => 2
  | .endMarker => 3

def name : Symbol → Name
  | .terminal name | .nonterminal name => name
  | .epsilon | .endMarker => ""

theorem eq_of_rank_of_name {first second : Symbol} (sameRank : first.rank = second.rank)
    (sameName : first.name = second.name) : first = second := by
  cases first <;> cases second <;> simp_all [rank, name]

instance : Ord Symbol := ⟨compareLex (compareOn rank) (compareOn name)⟩

instance : Std.TransOrd Symbol :=
  inferInstanceAs (Std.TransCmp (compareLex (compareOn rank) (compareOn name)))

instance : Std.LawfulEqOrd Symbol where
  compare_self {symbol} := by
    show (compareOn rank symbol symbol).then (compareOn name symbol symbol) = .eq
    simp [compareOn]
  eq_of_compare {first second} same := by
    have both : (compareOn rank first second).then (compareOn name first second) = .eq := same
    obtain ⟨sameRank, sameName⟩ := Ordering.then_eq_eq.mp both
    exact eq_of_rank_of_name (Std.LawfulEqCmp.eq_of_compare sameRank)
      (Std.LawfulEqCmp.eq_of_compare sameName)

def text : Symbol → String
  | .terminal name | .nonterminal name => name
  | .epsilon => "ε"
  | .endMarker => "$"

def isInput : Symbol → Bool
  | .terminal _ | .endMarker => true
  | .nonterminal _ | .epsilon => false

/-- An input symbol is a terminal or the end marker. -/
theorem eq_of_isInput {symbol : Symbol} (isInput : symbol.isInput = true) :
    (∃ name, symbol = .terminal name) ∨ symbol = .endMarker := by
  cases symbol with
  | terminal name => exact .inl ⟨name, rfl⟩
  | endMarker => exact .inr rfl
  | nonterminal name => cases isInput
  | epsilon => cases isInput

def nonterminal? : Symbol → Option Name
  | .nonterminal name => some name
  | _ => none

theorem nonterminal?_eq_some_iff (symbol : Symbol) (name : Name) :
    symbol.nonterminal? = some name ↔ symbol = .nonterminal name := by
  cases symbol <;> simp [nonterminal?]

def terminal? : Symbol → Option Name
  | .terminal name => some name
  | _ => none

theorem terminal?_eq_some_iff (symbol : Symbol) (name : Name) :
    symbol.terminal? = some name ↔ symbol = .terminal name := by
  cases symbol <;> simp [terminal?]

end Symbol

abbrev SymbolSet := SortedSet Symbol

/-- An input with the end marker appended, unless it ends in one already. -/
def endTerminated (input : List Symbol) : List Symbol :=
  if input.getLast? = some .endMarker then input else input ++ [.endMarker]

theorem getLast?_endTerminated (input : List Symbol) :
    (endTerminated input).getLast? = some .endMarker := by
  unfold endTerminated
  split
  · assumption
  · simp

end Lookahead
