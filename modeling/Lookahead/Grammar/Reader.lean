import Lookahead.Grammar.Draft
import Lookahead.Text.Decimal
import Lookahead.Text.Lines
import Lookahead.Text.Words

/-!
# Grammars from text

Each line that is not blank holds one rule: a name, an arrow, and words of
one-character symbols as its alternatives.  A first line of digits says how
many rules to read; what follows them is not looked at.
-/

namespace Lookahead

namespace Grammar

inductive LineFault where
  | countTooLarge
  | missingArrow
  | noSingleName
  | noAlternatives
  | missingRules (expected found : Nat)
  deriving DecidableEq, Inhabited

def LineFault.reason : LineFault → String
  | .countTooLarge => "number too large to fit in target type"
  | .missingArrow => "missing `->`"
  | .noSingleName => "left-hand side must be a single name"
  | .noAlternatives => "rule has no alternatives"
  | .missingRules expected found => s!"expected {expected} rules, found {found}"

def LineFault.onLine (line : Nat) (fault : LineFault) : GrammarError := .unreadable line fault.reason

def splitArrow : List Char → Option (List Char × List Char)
  | [] => none
  | '-' :: '>' :: rest => some ([], rest)
  | character :: rest =>
      (splitArrow rest).map fun (before, after) => (character :: before, after)

theorem eq_of_splitArrow (text before after : List Char)
    (split : splitArrow text = some (before, after)) : text = before ++ '-' :: '>' :: after := by
  fun_induction splitArrow text generalizing before with
  | case1 => exact absurd split (by simp)
  | case2 rest =>
      simp only [Option.some.injEq, Prod.mk.injEq] at split
      obtain ⟨rfl, rfl⟩ := split
      rfl
  | case3 character rest _ ih =>
      obtain ⟨⟨front, back⟩, inner, same⟩ := Option.map_eq_some_iff.mp split
      simp only [Prod.mk.injEq] at same
      obtain ⟨rfl, rfl⟩ := same
      simp [ih front inner]

structure WrittenRule where
  lhs : Name
  alternatives : List (List Char)
  deriving DecidableEq, Inhabited

def readRule (line : List Char) : Except LineFault WrittenRule :=
  match splitArrow line with
  | none => .error .missingArrow
  | some (before, after) =>
      let lhs := Text.trim before
      if lhs.isEmpty || lhs.any Text.isBlank then .error .noSingleName
      else
        let alternatives := Text.words after
        if alternatives.isEmpty then .error .noAlternatives
        else .ok ⟨String.ofList lhs, alternatives⟩

/-- The trimmed lines that are not blank, with their numbers, which start at one. -/
def numberedLines (text : List Char) : List (Nat × List Char) :=
  ((Text.lines text).zipIdx 1).filterMap fun (line, number) =>
    let trimmed := Text.trim line
    if trimmed.isEmpty then none else some (number, trimmed)

def readRules (draft : Draft) : List (Nat × List Char) → Except GrammarError Draft
  | [] => .ok draft
  | (number, line) :: rest =>
      match readRule line with
      | .error fault => .error (fault.onLine number)
      | .ok rule => readRules (draft.addWritten rule.lhs rule.alternatives) rest

/-- The rules of a text, with the count in its first line checked if there is one. -/
def readDraft (conventions : Conventions) (text : List Char) : Except GrammarError Draft :=
  match numberedLines text with
  | [] => .ok { conventions }
  | (number, first) :: rest =>
      if first.all Char.isDigit then
        match Text.Decimal.readDigits 0 first with
        | .error _ => .error (LineFault.countTooLarge.onLine number)
        | .ok count =>
            match readRules { conventions } (rest.take count) with
            | .error fault => .error fault
            | .ok draft =>
                if rest.length < count then
                  .error ((LineFault.missingRules count rest.length).onLine (Text.lines text).length)
                else .ok draft
      else readRules { conventions } ((number, first) :: rest)

def read (conventions : Conventions) (text : String) : Except GrammarError Grammar :=
  match readDraft conventions text.toList with
  | .error fault => .error fault
  | .ok draft => draft.build

end Grammar

end Lookahead
