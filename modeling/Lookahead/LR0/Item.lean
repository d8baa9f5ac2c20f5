import Lookahead.Grammar.Basic

/-!
# Items

A production with a dot in it, which marks how much of its body has been
recognised.  Items are ordered by nonterminal, production and dot.
-/

namespace Lookahead.LR0

structure Item where
  nonterminal : Name
  production : Nat
  dot : Nat
  deriving DecidableEq, Inhabited

namespace Item

instance : Ord Item :=
  ⟨compareLex (compareOn nonterminal) (compareLex (compareOn production) (compareOn dot))⟩

instance : Std.TransOrd Item :=
  inferInstanceAs (Std.TransCmp
    (compareLex (compareOn nonterminal) (compareLex (compareOn production) (compareOn dot))))

instance : Std.LawfulEqOrd Item where
  compare_self {item} := by
    show (compareOn nonterminal item item).then
      ((compareOn production item item).then (compareOn dot item item)) = .eq
    simp [compareOn]
  eq_of_compare {first second} same := by
    have parts : (compareOn nonterminal first second).then
        ((compareOn production first second).then (compareOn dot first second)) = .eq := same
    simp only [Ordering.then_eq_eq, compareOn, Std.LawfulEqCmp.compare_eq_iff_eq] at parts
    obtain ⟨sameNonterminal, sameProduction, sameDot⟩ := parts
    cases first; cases second; simp_all

def nextSymbol? (grammar : Grammar) (item : Item) : Option Symbol :=
  (grammar.production? item.nonterminal item.production).bind fun production =>
    production.body[item.dot]?

/-- Whether the dot is at the end of a production that the grammar has. -/
def isComplete (grammar : Grammar) (item : Item) : Bool :=
  match grammar.production? item.nonterminal item.production with
  | some production => decide (production.length ≤ item.dot)
  | none => false

def advance (item : Item) : Item := { item with dot := item.dot + 1 }

end Item

end Lookahead.LR0
