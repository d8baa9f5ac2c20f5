import Lookahead.CommandLine.Failure
import Lookahead.CommandLine.Options
import Lookahead.Grammar.Reader

/-!
# The program

The program reads a grammar, from a file or from the lines of its input, and
holds a dialogue about it on the lines that are left.
-/

namespace Lookahead.CommandLine

/-- A grammar text with its rule count in front, and the lines after it. -/
structure CountedText where
  text : List Char
  unread : List (List Char)
  deriving DecidableEq, Inhabited

def terminated (line : List Char) : List Char := line ++ ['\n']

def CountedText.ofLines : List (List Char) → Except Failure CountedText
  | [] => .error .missingCount
  | first :: rest =>
      match Text.Decimal.read (Text.trim first) with
      | .error fault => .error (.invalidCount fault)
      | .ok count =>
          if rest.length < count then .error .missingRules
          else .ok ⟨terminated (Text.trim first) ++ (rest.take count).flatMap terminated,
            rest.drop count⟩

/-- The number of lines that a count line asks for; a line that is no count asks for none. -/
def linesWanted (first : List Char) : Nat :=
  match Text.Decimal.read (Text.trim first) with
  | .ok count => count
  | .error _ => 0

def Options.conventions (options : Options) : Conventions :=
  { start := options.start, epsilon := options.epsilon }

def Options.readGrammar (options : Options) (text : List Char) : Except Failure Grammar :=
  match Grammar.read options.conventions (String.ofList text) with
  | .error error => .error (.refused error)
  | .ok grammar => .ok grammar

/-- What a run of the program leaves behind; there is no code if it never ends. -/
structure Outcome where
  code : Option Nat
  printed : String
  complaint : String
  deriving DecidableEq, Inhabited

abbrev Files := String → Except FileFault String

/-- The grammar, and the lines that are left for the dialogue. -/
def source (options : Options) (files : Files) (input : List (List Char)) :
    Except Failure (Grammar × List (List Char)) :=
  match options.grammarFile with
  | some name =>
      match files name with
      | .error fault => .error (.unreadable fault)
      | .ok text =>
          match options.readGrammar text.toList with
          | .error failure => .error failure
          | .ok grammar => .ok (grammar, input)
  | none =>
      match CountedText.ofLines input with
      | .error failure => .error failure
      | .ok counted =>
          match options.readGrammar counted.text with
          | .error failure => .error failure
          | .ok grammar => .ok (grammar, counted.unread)

def dialogue (grammar : Grammar) (requested : Option ParserKind) (lines : List (List Char)) :
    Transcript :=
  let parsers := Parsers.ofGrammar grammar
  let turn := opening parsers requested
  let after := converse parsers turn.stage lines
  { after with printed := turn.printed ++ after.printed }

def printLines (lines : List String) : String := String.join (lines.map fun line => line ++ "\n")

def complaintOf (failure : Failure) : String := "Error: " ++ failure.text ++ "\n"

def runWith (options : Options) (files : Files) (input : String) : Outcome :=
  match source options files (Text.lines input.toList) with
  | .error failure => ⟨some 1, "", complaintOf failure⟩
  | .ok (grammar, lines) =>
      let transcript := dialogue grammar options.parser lines
      ⟨if transcript.ended then some 0 else none, printLines transcript.printed, ""⟩

def helpText : String := printLines
  ["Classify a grammar as LL(1) / SLR(1) and test strings against it",
    "",
    "Options:",
    "  -g, --grammar <GRAMMAR>  Read the grammar from a file instead of stdin",
    "  -s, --start <START>      Start nonterminal [default: S]",
    "  -e, --epsilon <EPSILON>  Character that spells an empty alternative [default: e]",
    "  -p, --parser <PARSER>    Skip the selection prompt [possible values: ll1, slr1]",
    "  -h, --help               Print help"]

def usageComplaint : String := printLines
  ["error: invalid arguments", "", "For more information, try '--help'."]

def execute (arguments : List String) (files : Files) (input : String) : Outcome :=
  match Invocation.ofArguments arguments with
  | .error _ => ⟨some 2, "", usageComplaint⟩
  | .ok .help => ⟨some 0, helpText, ""⟩
  | .ok (.run options) => runWith options files input

end Lookahead.CommandLine
