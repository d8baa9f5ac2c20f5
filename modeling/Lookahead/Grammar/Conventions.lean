import Lookahead.Symbol
import Lookahead.Text.Uppercase

/-!
# Symbols of one character

In text every symbol is one character: a reserved character for the empty word
and one for the end of the input, a capital letter for a nonterminal, and
anything else for a terminal.
-/

namespace Lookahead

/-- The start symbol and the two reserved characters of the one-character text format. -/
structure Conventions where
  start : Name := "S"
  epsilon : Char := 'e'
  endMarker : Char := '$'
  deriving DecidableEq, Inhabited

/-- A character of a body: a reserved character, a capital for a rule, or a terminal. -/
def Conventions.classify (conventions : Conventions) (character : Char) : Symbol :=
  if character = conventions.epsilon then .epsilon
  else if character = conventions.endMarker then .endMarker
  else if Text.isUppercase character then .nonterminal (String.singleton character)
  else .terminal (String.singleton character)

def Conventions.token (conventions : Conventions) (character : Char) : Symbol :=
  if character = conventions.endMarker then .endMarker
  else .terminal (String.singleton character)

def Conventions.tokenize (conventions : Conventions) (input : List Char) : List Symbol :=
  input.map conventions.token

end Lookahead
