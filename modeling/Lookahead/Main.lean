import Lookahead.CommandLine.Program

/-!
# Entry point

Reads lines as the dialogue needs them, and prints each answer at once.
-/

namespace Lookahead.CommandLine

/-- The next line, without its end; none at the end of the input. -/
def nextLine (input : IO.FS.Stream) : IO (Option (List Char)) := do
  return (Text.lines (← input.getLine).toList).head?

def nextLines (input : IO.FS.Stream) : Nat → IO (List (List Char))
  | 0 => return []
  | count + 1 => do
      match ← nextLine input with
      | none => return []
      | some line => return line :: (← nextLines input count)

def say (output : IO.FS.Stream) (lines : List String) : IO Unit := do
  output.putStr (printLines lines)
  output.flush

/-- The fault for a system error number, which may come with its sign turned. -/
def faultOf (number : UInt32) (text : String) : FileFault :=
  let code := min number (0 - number)
  if code = 2 then .notFound
  else if code = 6 then .noDevice
  else if code = 13 then .permissionDenied
  else if code = 20 then .notDirectory
  else if code = 21 then .isDirectory
  else if code = 36 then .nameTooLong
  else if code = 40 then .tooManyLinks
  else .other text

def readFile (name : String) : IO (Except FileFault String) := do
  try
    return .ok (← IO.FS.readFile name)
  catch fault =>
    match fault with
    | .noFileOrDirectory _ number _ | .noSuchThing _ number _ | .permissionDenied _ number _
    | .inappropriateType _ number _ | .invalidArgument _ number _ =>
        return .error (faultOf number (toString fault))
    | .userError _ => return .error .notText
    | other => return .error (.other (toString other))

def readSource (options : Options) (input : IO.FS.Stream) : IO (Except Failure Grammar) := do
  match options.grammarFile with
  | some name =>
      let text ← readFile name
      return (source options (fun _ => text) []).map Prod.fst
  | none =>
      match ← nextLine input with
      | none => return (source options (fun _ => .error .notFound) []).map Prod.fst
      | some first =>
          let rules ← nextLines input (linesWanted first)
          return (source options (fun _ => .error .notFound) (first :: rules)).map Prod.fst

partial def talk (parsers : Parsers) (input output : IO.FS.Stream) (turn : Turn) : IO Unit := do
  say output turn.printed
  match turn.stage with
  | .closed => return
  | .judging => talk parsers input output ⟨[], .judging⟩
  | stage =>
      match ← nextLine input with
      | some line => talk parsers input output (feed parsers stage line)
      | none => say output (finish stage)

end Lookahead.CommandLine

open Lookahead.CommandLine in
def main (arguments : List String) : IO UInt32 := do
  match Invocation.ofArguments arguments with
  | .error _ =>
      (← IO.getStderr).putStr usageComplaint
      return 2
  | .ok .help =>
      (← IO.getStdout).putStr helpText
      return 0
  | .ok (.run options) =>
      let input ← IO.getStdin
      match ← readSource options input with
      | .error failure =>
          (← IO.getStderr).putStr (complaintOf failure)
          return 1
      | .ok grammar =>
          let parsers := Parsers.ofGrammar grammar
          talk parsers input (← IO.getStdout) (opening parsers options.parser)
          return 0
