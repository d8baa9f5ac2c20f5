import Lookahead.LL1.Parser
import Lookahead.SLR1.Parser

/-!
# Classes of grammars

A grammar with its FIRST and FOLLOW sets, and the parsers that it admits.
-/

namespace Lookahead

structure Analysis where
  grammar : Grammar
  first : FirstSets
  follow : FollowSets
  deriving DecidableEq, Inhabited

def Grammar.analysis (grammar : Grammar) : Analysis :=
  let first := grammar.firstSets
  ⟨grammar, first, grammar.followSets first⟩

/-- The automaton of the augmented grammar. -/
def Grammar.automaton (grammar : Grammar) : LR0.Automaton :=
  LR0.Automaton.ofGrammar grammar.augmented.toGrammar

namespace Analysis

def ll1 (analysis : Analysis) : Except ConflictReport LL1.Table :=
  LL1.Table.build analysis.grammar analysis.first analysis.follow

def slr1 (analysis : Analysis) : Except ConflictReport SLR1.Tables :=
  SLR1.Tables.build analysis.grammar.automaton analysis.grammar.augmented analysis.follow

def isLL1 (analysis : Analysis) : Bool := analysis.ll1.isOk

def isSLR1 (analysis : Analysis) : Bool := analysis.slr1.isOk

end Analysis

def LL1.Table.conventions (table : LL1.Table) : Conventions := table.grammar.conventions

def SLR1.Tables.conventions (tables : SLR1.Tables) : Conventions := tables.grammar.conventions

def LL1.Table.parseText? (table : LL1.Table) (input : List Char) : Option ParseResult :=
  table.parse? (table.conventions.tokenize input)

def SLR1.Tables.parseText? (tables : SLR1.Tables) (input : List Char) : Option ParseResult :=
  tables.parse? (tables.conventions.tokenize input)

end Lookahead
