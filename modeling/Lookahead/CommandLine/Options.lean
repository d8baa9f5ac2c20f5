import Lookahead.CommandLine.Dialogue

/-!
# Command line options

Each option is given at most once, by a word or by a letter, with its value
attached or as the next argument.  There are no other arguments.
-/

namespace Lookahead.CommandLine

structure Options where
  grammarFile : Option String := none
  start : String := "S"
  epsilon : Char := 'e'
  parser : Option ParserKind := none
  deriving DecidableEq, Inhabited

inductive OptionName where
  | grammar
  | start
  | epsilon
  | parser
  deriving DecidableEq, Inhabited

inductive UsageError where
  | unexpected (argument : String)
  | missingValue (option : OptionName)
  | invalidValue (option : OptionName) (value : String)
  | repeated (option : OptionName)
  deriving DecidableEq, Inhabited

inductive Invocation where
  | help
  | run (options : Options)
  deriving DecidableEq, Inhabited

namespace OptionName

def ofWord? (word : String) : Option OptionName :=
  if word = "grammar" then some .grammar
  else if word = "start" then some .start
  else if word = "epsilon" then some .epsilon
  else if word = "parser" then some .parser
  else none

def ofLetter? (letter : Char) : Option OptionName :=
  if letter = 'g' then some .grammar
  else if letter = 's' then some .start
  else if letter = 'e' then some .epsilon
  else if letter = 'p' then some .parser
  else none

end OptionName

def ParserKind.ofWord? (word : String) : Option ParserKind :=
  if word = "ll1" then some .ll1 else if word = "slr1" then some .slr1 else none

/-- Set an option: a file needs a name, the empty-word character is one character. -/
def Options.set (options : Options) (name : OptionName) (value : String) :
    Except UsageError Options :=
  match name with
  | .grammar =>
      if value.isEmpty then .error (.invalidValue name value)
      else .ok { options with grammarFile := some value }
  | .start => .ok { options with start := value }
  | .epsilon =>
      match value.toList with
      | [character] => .ok { options with epsilon := character }
      | _ => .error (.invalidValue name value)
  | .parser =>
      match ParserKind.ofWord? value with
      | some kind => .ok { options with parser := some kind }
      | none => .error (.invalidValue name value)

inductive Argument where
  | help
  | separator
  | named (option : OptionName) (value : Option String)
  | plain (text : String)
  | unknown (text : String)
  deriving DecidableEq, Inhabited

def splitEquals : List Char → List Char × Option (List Char)
  | [] => ([], none)
  | '=' :: rest => ([], some rest)
  | character :: rest =>
      let (before, after) := splitEquals rest
      (character :: before, after)

/-- The value attached to an option letter: an equals sign before it is left out. -/
def attached : List Char → Option String
  | [] => none
  | '=' :: value => some (String.ofList value)
  | value => some (String.ofList value)

def Argument.ofText (text : String) : Argument :=
  match text.toList with
  | ['-', '-'] => .separator
  | '-' :: '-' :: rest =>
      let (word, value) := splitEquals rest
      if String.ofList word = "help" then if value.isNone then .help else .unknown text
      else
        match OptionName.ofWord? (String.ofList word) with
        | some option => .named option (value.map String.ofList)
        | none => .unknown text
  | '-' :: letter :: rest =>
      if letter = 'h' then .help
      else
        match OptionName.ofLetter? letter with
        | some option => .named option (attached rest)
        | none => .unknown text
  | _ => .plain text

/-- The options read so far, those that were given, and one that waits for its value. -/
structure Reading where
  options : Options := {}
  given : List OptionName := []
  waiting : Option OptionName := none
  deriving DecidableEq, Inhabited

namespace Reading

def take (reading : Reading) (name : OptionName) (value : String) : Except UsageError Reading :=
  if name ∈ reading.given then .error (.repeated name)
  else
    match reading.options.set name value with
    | .error fault => .error fault
    | .ok options => .ok { options, given := name :: reading.given }

/-- Read the arguments in order; asking for help ends the reading. -/
def arguments (reading : Reading) : List String → Except UsageError Invocation
  | [] =>
      match reading.waiting with
      | some name => .error (.missingValue name)
      | none => .ok (.run reading.options)
  | text :: rest =>
      match reading.waiting, Argument.ofText text with
      | some name, .plain value =>
          match reading.take name value with
          | .error fault => .error fault
          | .ok after => after.arguments rest
      | some name, _ => .error (.missingValue name)
      | none, .help => .ok .help
      | none, .named name (some value) =>
          match reading.take name value with
          | .error fault => .error fault
          | .ok after => after.arguments rest
      | none, .named name none => arguments { reading with waiting := some name } rest
      | none, .separator =>
          match rest with
          | [] => .ok (.run reading.options)
          | argument :: _ => .error (.unexpected argument)
      | none, .plain argument => .error (.unexpected argument)
      | none, .unknown argument => .error (.unexpected argument)

end Reading

def Invocation.ofArguments (arguments : List String) : Except UsageError Invocation :=
  Reading.arguments {} arguments

end Lookahead.CommandLine
