import Lookahead.Grammar.Basic

/-!
# Augmented grammars

A fresh start symbol whose only production is the old start symbol.
-/

namespace Lookahead

def freshName (taken : List Name) (candidate : Name) : Name :=
  if candidate ∈ taken then freshName (taken.erase candidate) (candidate ++ "'") else candidate
termination_by taken.length
decreasing_by
  rename_i found
  have positive := List.length_pos_of_mem found
  have erased := List.length_erase_of_mem found
  omega

/-- A grammar whose first rule starts it, with the start symbol it had before. -/
structure AugmentedGrammar extends Grammar where
  innerStart : Name
  deriving DecidableEq, Inhabited

namespace Grammar

def takenNames (grammar : Grammar) : List Name :=
  grammar.index.map Prod.fst ++ grammar.terminals.toList

/-- The start symbol followed by the fewest apostrophes, at least one, that make a new name. -/
def freshStart (grammar : Grammar) : Name := freshName grammar.takenNames (grammar.start ++ "'")

/-- The grammar with the rule `S' → S` in front. -/
def augmented (grammar : Grammar) : AugmentedGrammar where
  toGrammar := .indexed { grammar.conventions with start := grammar.freshStart }
    (⟨grammar.freshStart, [⟨[.nonterminal grammar.start]⟩]⟩ :: grammar.rules) grammar.terminals
  innerStart := grammar.start

end Grammar

end Lookahead
