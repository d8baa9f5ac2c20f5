import Lookahead.Grammar.Error
import Lookahead.Text.Decimal
import Lookahead.Text.Quoted

/-!
# Why the program gives up

Every cause has a text of its own, in which names and reasons are quoted.
-/

namespace Lookahead.CommandLine

inductive FileFault where
  | notFound
  | noDevice
  | permissionDenied
  | notDirectory
  | isDirectory
  | nameTooLong
  | tooManyLinks
  | notText
  | other (text : String)
  deriving DecidableEq, Inhabited

inductive Failure where
  | missingCount
  | invalidCount (fault : Text.Decimal.Fault)
  | missingRules
  | refused (error : GrammarError)
  | unreadable (fault : FileFault)
  deriving DecidableEq, Inhabited

def recordText (name : String) (fields : List (String × String)) : String :=
  name ++ " \x7b " ++
    ", ".intercalate (fields.map fun (field, value) => field ++ ": " ++ value) ++ " \x7d"

def countFaultText : Text.Decimal.Fault → String
  | .empty => recordText "ParseIntError" [("kind", "Empty")]
  | .invalidDigit => recordText "ParseIntError" [("kind", "InvalidDigit")]
  | .tooLarge => recordText "ParseIntError" [("kind", "PosOverflow")]

def systemErrorText (code : Nat) (kind message : String) : String :=
  recordText "Os" [("code", toString code), ("kind", kind), ("message", Text.quote message)]

def fileFaultText : FileFault → String
  | .notFound => systemErrorText 2 "NotFound" "No such file or directory"
  | .noDevice => systemErrorText 6 "Uncategorized" "No such device or address"
  | .permissionDenied => systemErrorText 13 "PermissionDenied" "Permission denied"
  | .notDirectory => systemErrorText 20 "NotADirectory" "Not a directory"
  | .isDirectory => systemErrorText 21 "IsADirectory" "Is a directory"
  | .nameTooLong => systemErrorText 36 "InvalidFilename" "File name too long"
  | .tooManyLinks => systemErrorText 40 "FilesystemLoop" "Too many levels of symbolic links"
  | .notText => recordText "Error"
      [("kind", "InvalidData"), ("message", Text.quote "stream did not contain valid UTF-8")]
  | .other text => Text.quote text

def refusalText : GrammarError → String
  | .missingStart name => s!"MissingStart({Text.quote name})"
  | .undefinedNonterminal name => s!"UndefinedNonterminal({Text.quote name})"
  | .emptyRule lhs => s!"EmptyRule({Text.quote lhs})"
  | .endMarkerInRule lhs => s!"EndMarkerInRule({Text.quote lhs})"
  | .unreadable line reason =>
      recordText "Syntax" [("line", toString line), ("reason", Text.quote reason)]

def Failure.text : Failure → String
  | .missingCount => Text.quote "missing rule count"
  | .invalidCount fault => countFaultText fault
  | .missingRules => Text.quote "grammar ended before the rule count was reached"
  | .refused error => refusalText error
  | .unreadable fault => fileFaultText fault

end Lookahead.CommandLine
