import Lookahead.Grammar.Basic

/-!
# Grammars as text

One line for each rule: its nonterminal, an arrow, and its alternatives as
words of one-character symbols.
-/

namespace Lookahead

namespace Grammar

/-- An alternative as one word; the empty one is the reserved character for the empty word. -/
def printProduction (conventions : Conventions) (production : Production) : List Char :=
  if production.isEmpty then [conventions.epsilon]
  else production.body.flatMap fun symbol => symbol.text.toList

def printRule (conventions : Conventions) (rule : Rule) : List Char :=
  rule.lhs.toList ++ [' ', '-', '>'] ++
    (rule.productions.flatMap fun production => ' ' :: printProduction conventions production)

def print (grammar : Grammar) : String :=
  String.ofList (grammar.rules.flatMap fun rule => printRule grammar.conventions rule ++ ['\n'])

end Grammar

end Lookahead
