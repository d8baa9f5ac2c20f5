import Lookahead.Symbol

/-!
# Why a grammar is refused
-/

namespace Lookahead

inductive GrammarError where
  | missingStart (name : Name)
  | undefinedNonterminal (name : Name)
  | emptyRule (lhs : Name)
  | endMarkerInRule (lhs : Name)
  | unreadable (line : Nat) (reason : String)
  deriving DecidableEq, Inhabited

def GrammarError.message : GrammarError → String
  | .missingStart name => s!"start nonterminal `{name}` has no rule"
  | .undefinedNonterminal name => s!"nonterminal `{name}` is referenced but has no rule"
  | .emptyRule lhs => s!"rule `{lhs}` has no alternatives"
  | .endMarkerInRule lhs => s!"rule `{lhs}` uses the end-of-input marker"
  | .unreadable line reason => s!"line {line}: {reason}"

end Lookahead
