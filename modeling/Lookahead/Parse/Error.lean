import Lookahead.Symbol

/-!
# Why a parse fails

A rejection is a fact about the input.  A violation is a fact about the tables:
they do not fit the grammar or each other.
-/

namespace Lookahead

/-- The input is not in the language; positions count symbols before the fault. -/
inductive Rejection where
  | mismatch (expected found : Symbol) (position : Nat)
  | noRule (nonterminal : Name) (lookahead : Symbol) (position : Nat)
  | noAction (state : Nat) (lookahead : Symbol) (position : Nat)
  | trailingInput (position : Nat)
  deriving DecidableEq, Inhabited

/-- The tables ask for something that is not there. -/
inductive Violation where
  | missingGoto (state : Nat) (nonterminal : Name)
  | missingProduction (nonterminal : Name) (production : Nat)
  | stackUnderflow (nonterminal : Name)
  deriving DecidableEq, Inhabited

inductive ParseError where
  | rejected (rejection : Rejection)
  | violated (violation : Violation)
  deriving DecidableEq, Inhabited

def Rejection.position : Rejection → Nat
  | .mismatch _ _ position | .noRule _ _ position | .noAction _ _ position
  | .trailingInput position => position

def Rejection.message : Rejection → String
  | .mismatch expected found position =>
      s!"expected `{expected.text}` but found `{found.text}` at position {position}"
  | .noRule nonterminal lookahead position =>
      s!"no production of `{nonterminal}` starts with `{lookahead.text}` at position {position}"
  | .noAction state lookahead position =>
      s!"no action in state {state} on `{lookahead.text}` at position {position}"
  | .trailingInput position => s!"input continues after the end marker at position {position}"

def Violation.message : Violation → String
  | .missingGoto state nonterminal =>
      s!"no goto from state {state} on `{nonterminal}` after a reduction"
  | .missingProduction nonterminal production =>
      s!"table refers to missing production {production} of `{nonterminal}`"
  | .stackUnderflow nonterminal => s!"parse stack underflow at `{nonterminal}`"

def ParseError.message : ParseError → String
  | .rejected rejection => "rejected: " ++ rejection.message
  | .violated violation => "invariant violated: " ++ violation.message

abbrev ParseResult := Except ParseError Unit

/-- Whether an input is accepted; a violation of the tables decides nothing. -/
def ParseResult.verdict : ParseResult → Option Bool
  | .ok _ => some true
  | .error (.rejected _) => some false
  | .error (.violated _) => none

end Lookahead
