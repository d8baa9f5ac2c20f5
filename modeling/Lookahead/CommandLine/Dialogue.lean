import Lookahead.Analysis
import Lookahead.Text.Words

/-!
# The dialogue with a user

A dialogue reads lines and prints lines.  Where both parsers exist and none was
asked for, it prompts for a choice; a choice starts a session, in which every
line up to an empty one is an input string to be judged.
-/

namespace Lookahead.CommandLine

inductive ParserKind where
  | ll1
  | slr1
  deriving DecidableEq, Inhabited

structure Parsers where
  ll1 : Option LL1.Table
  slr1 : Option SLR1.Tables
  deriving DecidableEq, Inhabited

namespace Parsers

def ofGrammar (grammar : Grammar) : Parsers :=
  let analysis := grammar.analysis
  ⟨analysis.ll1.toOption, analysis.slr1.toOption⟩

def parse? (parsers : Parsers) (kind : ParserKind) (input : List Char) : Option ParseResult :=
  match kind with
  | .ll1 => parsers.ll1.bind fun table => table.parseText? input
  | .slr1 => parsers.slr1.bind fun tables => tables.parseText? input

/-- Whether the parser of a kind accepts an input string, if it comes to a verdict. -/
def verdict? (parsers : Parsers) (kind : ParserKind) (input : List Char) : Option Bool :=
  (parsers.parse? kind input).bind ParseResult.verdict

end Parsers

/-- What a dialogue waits for: a choice, an input string, a verdict that never comes, or nothing. -/
inductive Stage where
  | choosing
  | testing (kind : ParserKind) (again : Bool)
  | judging
  | closed
  deriving DecidableEq, Inhabited

inductive Choice where
  | test (kind : ParserKind)
  | quit
  deriving DecidableEq, Inhabited

def promptLine : String := "Select a parser (T: for LL(1), B: for SLR(1), Q: quit):"

/-- One letter, in either case, with blanks around it. -/
def choice? (line : List Char) : Option Choice :=
  match Text.trim line with
  | ['T'] | ['t'] => some (.test .ll1)
  | ['B'] | ['b'] => some (.test .slr1)
  | ['Q'] | ['q'] => some .quit
  | _ => none

/-- A line without the carriage returns at its end. -/
def inputOf (line : List Char) : List Char :=
  (line.reverse.dropWhile fun character => decide (character = '\r')).reverse

def answer (accepted : Bool) : String := if accepted then "yes" else "no"

structure Turn where
  printed : List String
  stage : Stage
  deriving DecidableEq, Inhabited

/-- How a dialogue opens: with the prompt, or with the class when there is no choice. -/
def opening (parsers : Parsers) (requested : Option ParserKind) : Turn :=
  match parsers.ll1, parsers.slr1 with
  | some _, some _ =>
      match requested with
      | some kind => ⟨[], .testing kind false⟩
      | none => ⟨[promptLine], .choosing⟩
  | some _, none => ⟨["Grammar is LL(1)."], .testing .ll1 false⟩
  | none, some _ => ⟨["Grammar is SLR(1)."], .testing .slr1 false⟩
  | none, none => ⟨["Grammar is neither LL(1) nor SLR(1)."], .closed⟩

def sessionEnd (again : Bool) : Turn :=
  if again then ⟨[promptLine], .choosing⟩ else ⟨[], .closed⟩

def feed (parsers : Parsers) (stage : Stage) (line : List Char) : Turn :=
  match stage with
  | .choosing =>
      match choice? line with
      | some (.test kind) => ⟨[], .testing kind true⟩
      | some .quit => ⟨[], .closed⟩
      | none => ⟨[], .choosing⟩
  | .testing kind again =>
      let input := inputOf line
      if input.isEmpty then sessionEnd again
      else
        match parsers.verdict? kind input with
        | some accepted => ⟨[answer accepted], .testing kind again⟩
        | none => ⟨[], .judging⟩
  | .judging => ⟨[], .judging⟩
  | .closed => ⟨[], .closed⟩

/-- What a dialogue prints at the end of the lines: that ends a session too. -/
def finish : Stage → List String
  | .testing _ again => (sessionEnd again).printed
  | .choosing | .judging | .closed => []

/-- What a dialogue leaves behind: lines printed, lines not read, and whether it came to an end. -/
structure Transcript where
  printed : List String
  unread : List (List Char)
  ended : Bool
  deriving DecidableEq, Inhabited

/-- The dialogue on some lines.  It goes no further while it waits for a verdict that never comes. -/
def converse (parsers : Parsers) : Stage → List (List Char) → Transcript
  | .closed, lines => ⟨[], lines, true⟩
  | .judging, lines => ⟨[], lines, false⟩
  | stage, [] => ⟨finish stage, [], true⟩
  | stage, line :: rest =>
      let turn := feed parsers stage line
      let after := converse parsers turn.stage rest
      { after with printed := turn.printed ++ after.printed }

end Lookahead.CommandLine
