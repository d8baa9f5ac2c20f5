import Lookahead.Grammar.Reader
import Lookahead.Proofs.Grammar.Entries
import Lookahead.Proofs.Text.Layout

/-!
# Lines that hold rules

A rule read from a line has a name without blanks and arrows, and words as its
alternatives.  It is read back from the line on which it is written plainly, and the
drafts read from texts are those of such rules.
-/

namespace Lookahead.Grammar

def ArrowFree (text : List Char) : Prop := ¬ ['-', '>'] <:+: text

section Arrow

variable {text before after : List Char}

theorem ArrowFree.of_part (free : ArrowFree text) (inside : before <:+: text) : ArrowFree before :=
  fun arrow => free (arrow.trans inside)

/-- A blank does not complete an arrow. -/
theorem ArrowFree.append_space (free : ArrowFree text) : ArrowFree (text ++ [' ']) := by
  intro arrow
  rcases List.infix_concat_iff.mp arrow with atEnd | inside
  · have sameLast := atEnd.getLast (by simp)
    simp at sameLast
  · exact free inside

theorem splitArrow_append (free : ArrowFree before) :
    splitArrow (before ++ '-' :: '>' :: after) = some (before, after) := by
  induction before with
  | nil => rfl
  | cons head rest ih =>
      have restFree := free.of_part (List.suffix_cons head rest).isInfix
      rw [List.cons_append, splitArrow, ih restFree]
      · rfl
      -- An arrow that begins at the head would lie within the text before.
      · rintro others rfl isRest
        cases rest with
        | nil => cases isRest
        | cons second more =>
            obtain ⟨rfl, _⟩ := List.cons.inj isRest
            exact free ⟨[], more, rfl⟩

/-- A text is split at its first arrow. -/
theorem arrowFree_of_splitArrow (split : splitArrow text = some (before, after)) :
    ArrowFree before := by
  fun_induction splitArrow text generalizing before with
  | case1 => cases split
  | case2 rest =>
      obtain ⟨rfl, _⟩ := Prod.mk.inj (Option.some.inj split)
      intro arrow
      exact absurd (List.infix_nil.mp arrow) (List.cons_ne_nil _ _)
  | case3 character rest noArrow ih =>
      obtain ⟨⟨front, back⟩, inner, same⟩ := Option.map_eq_some_iff.mp split
      obtain ⟨rfl, rfl⟩ := Prod.mk.inj same
      have isRest := eq_of_splitArrow rest front back inner
      intro arrow
      rcases List.infix_cons_iff.mp arrow with atStart | inside
      · obtain ⟨isDash, isFront⟩ := List.cons_prefix_cons.mp atStart
        obtain ⟨more, rfl⟩ := isFront
        exact noArrow _ isDash.symm isRest
      · exact ih inner inside

end Arrow

/-- What a name satisfies that can stand before the arrow of a line. -/
structure LegibleName (name : Name) : Prop where
  name_ne_nil : name.toList ≠ []
  name_clear : ∀ character ∈ name.toList, Text.isBlank character = false
  name_arrowFree : ArrowFree name.toList

namespace WrittenRule

def entry (rule : WrittenRule) : Entry := .words rule.lhs rule.alternatives

def line (rule : WrittenRule) : List Char :=
  rule.lhs.toList ++ [' ', '-', '>'] ++ rule.alternatives.flatMap fun word => ' ' :: word

def text (written : List WrittenRule) : List Char := written.flatMap fun rule => rule.line ++ ['\n']

structure Legible (rule : WrittenRule) : Prop extends LegibleName rule.lhs where
  alternatives_ne_nil : rule.alternatives ≠ []
  words_clear : ∀ word ∈ rule.alternatives,
    word ≠ [] ∧ ∀ character ∈ word, Text.isBlank character = false

variable {rule : WrittenRule}

theorem legible_of_readRule {text : List Char} (ok : readRule text = .ok rule) : rule.Legible := by
  unfold readRule at ok
  split at ok
  · cases ok
  · rename_i before after split
    dsimp only at ok
    split at ok
    · cases ok
    · rename_i singleName
      split at ok
      · cases ok
      · rename_i nonempty
        obtain rfl := Except.ok.inj ok
        have lhsText : (String.ofList (Text.trim before)).toList = Text.trim before :=
          String.toList_ofList
        simp only [Bool.or_eq_true, not_or, List.isEmpty_iff, List.any_eq_true, not_exists, not_and,
          Bool.not_eq_true] at singleName
        refine ⟨⟨?_, ?_, ?_⟩, ?_, ?_⟩
        · rw [lhsText]
          exact singleName.1
        · rw [lhsText]
          exact singleName.2
        · rw [lhsText]
          exact (arrowFree_of_splitArrow split).of_part (Text.trim_infix before)
        · exact fun isNil => nonempty (List.isEmpty_iff.mpr isNil)
        · exact fun word => Text.forall_mem_words after word

namespace Legible

variable (legible : rule.Legible)
include legible

theorem readRule_line : readRule rule.line = .ok rule := by
  have isLine : rule.line = (rule.lhs.toList ++ [' ']) ++ '-' :: '>' ::
      rule.alternatives.flatMap fun word => ' ' :: word := by
    simp [line]
  have lhsTrimmed : Text.trim (rule.lhs.toList ++ [' ']) = rule.lhs.toList := by
    rw [Text.trim_append_blank _ Text.isBlank_space]
    exact Text.trim_eq_self (fun character first => legible.name_clear _ (List.mem_of_head? first))
      fun character last => legible.name_clear _ (List.mem_of_getLast? last)
  have singleName : ¬ (rule.lhs.toList.isEmpty || rule.lhs.toList.any Text.isBlank) = true := by
    simpa [legible.name_ne_nil] using legible.name_clear
  have nonempty : ¬ rule.alternatives.isEmpty = true := fun isEmpty =>
    legible.alternatives_ne_nil (List.isEmpty_iff.mp isEmpty)
  rw [readRule, isLine, splitArrow_append legible.name_arrowFree.append_space]
  dsimp only
  rw [lhsTrimmed, if_neg singleName, Text.words_flatMap_spaced legible.words_clear, if_neg nonempty,
    String.ofList_toList]

/-- Besides spaces a line holds no blank. -/
theorem not_blank_of_mem_line {character : Char} (inside : character ∈ rule.line)
    (solid : character ≠ ' ') : Text.isBlank character = false := by
  rcases List.mem_append.mp inside with inFront | inWords
  · rcases List.mem_append.mp inFront with inLhs | inArrow
    · exact legible.name_clear character inLhs
    · simp only [List.mem_cons, List.not_mem_nil, or_false] at inArrow
      rcases inArrow with rfl | rfl | rfl
      · exact absurd rfl solid
      · rfl
      · rfl
  · obtain ⟨word, listed, inWord⟩ := List.mem_flatMap.mp inWords
    rcases List.mem_cons.mp inWord with isSpace | inWord
    · exact absurd isSpace solid
    · exact (legible.words_clear word listed).2 character inWord

theorem trim_line : Text.trim rule.line = rule.line := by
  refine Text.trim_eq_self (fun character first => ?_) fun character last => ?_
  · refine legible.name_clear character (List.mem_of_head? ?_)
    rw [← first, line, List.append_assoc, List.head?_append_of_ne_nil _ legible.name_ne_nil]
  · obtain ⟨words, word, isConcat⟩ := (List.eq_nil_or_concat' _).resolve_left legible.alternatives_ne_nil
    have listed : word ∈ rule.alternatives := by simp [isConcat]
    obtain ⟨nonempty, clear⟩ := legible.words_clear word listed
    have isLine : rule.line = (rule.lhs.toList ++ [' ', '-', '>'] ++
        words.flatMap (fun word => ' ' :: word) ++ [' ']) ++ word := by
      simp [line, isConcat]
    refine clear character (List.mem_of_getLast? ?_)
    rw [← last, isLine, List.getLast?_append_of_ne_nil _ nonempty]

theorem newline_not_mem_line : '\n' ∉ rule.line := by
  intro inside
  have blank : Text.isBlank '\n' = true := rfl
  rw [legible.not_blank_of_mem_line inside (by decide)] at blank
  cases blank

end Legible

theorem dash_mem_line (rule : WrittenRule) : '-' ∈ rule.line := by simp [line]

/-- The line of a rule is no count. -/
theorem all_isDigit_line (rule : WrittenRule) : rule.line.all Char.isDigit = false :=
  List.all_eq_false.mpr ⟨'-', rule.dash_mem_line, Bool.false_ne_true⟩

end WrittenRule

section Draft

variable {conventions : Conventions} {draft result : Draft}

/-- Rules are read line by line, each from a line of its own. -/
theorem readRules_eq_ok_iff {numbered : List (Nat × List Char)} :
    readRules draft numbered = .ok result ↔ ∃ written : List WrittenRule,
      (numbered.map Prod.snd).map readRule = written.map .ok ∧
        (written.map WrittenRule.entry).foldl Draft.enter draft = result := by
  induction numbered generalizing draft with
  | nil =>
      simp only [readRules, List.map_nil, Except.ok.injEq]
      constructor
      · exact fun same => ⟨[], rfl, same⟩
      · rintro ⟨written, isNil, same⟩
        rw [List.map_eq_nil_iff.mp isNil.symm] at same
        exact same
  | cons first rest ih =>
      obtain ⟨number, line⟩ := first
      cases read : readRule line with
      | error fault =>
          simp only [readRules, read, reduceCtorEq, List.map_cons, false_iff, not_exists, not_and]
          intro written same
          cases written with
          | nil => cases same
          | cons head others => cases (List.cons.inj same).1
      | ok rule =>
          simp only [readRules, read, ih, List.map_cons]
          constructor
          · rintro ⟨written, same, isResult⟩
            exact ⟨rule :: written, by rw [same, List.map_cons], isResult⟩
          · rintro ⟨written, same, isResult⟩
            cases written with
            | nil => cases same
            | cons head others =>
                obtain ⟨isRule, sameOthers⟩ := List.cons.inj same
                obtain rfl := Except.ok.inj isRule
                exact ⟨others, sameOthers, isResult⟩

/-- Reading the first of some lines goes well when reading all of them does. -/
theorem exists_readRules_of_prefix {numbered others : List (Nat × List Char)}
    (ok : readRules draft numbered = .ok result)
    (isPrefix : others.map Prod.snd <+: numbered.map Prod.snd) :
    ∃ found, readRules draft others = .ok found := by
  obtain ⟨written, areRead, _⟩ := readRules_eq_ok_iff.mp ok
  refine ⟨_, readRules_eq_ok_iff.mpr ⟨written.take (others.map Prod.snd).length, ?_, rfl⟩⟩
  rw [List.map_take, ← areRead, ← List.map_take, ← List.prefix_iff_eq_take.mp isPrefix]

theorem readRules_congr {numbered others : List (Nat × List Char)}
    (same : others.map Prod.snd = numbered.map Prod.snd) :
    readRules draft others = .ok result ↔ readRules draft numbered = .ok result := by
  rw [readRules_eq_ok_iff, readRules_eq_ok_iff, same]

/-- The contents of numbered lines: the trimmed lines of the text that are not empty. -/
theorem map_snd_numberedLines (text : List Char) : (numberedLines text).map Prod.snd =
    ((Text.lines text).map Text.trim).filter fun line => !line.isEmpty := by
  have numberedFrom (lines : List (List Char)) (first : Nat) :
      ((lines.zipIdx first).filterMap fun numbered =>
        if (Text.trim numbered.1).isEmpty then none
        else some (numbered.2, Text.trim numbered.1)).map Prod.snd =
      (lines.map Text.trim).filter fun line => !line.isEmpty := by
    induction lines generalizing first with
    | nil => rfl
    | cons line rest ih =>
        simp only [List.zipIdx_cons, List.filterMap_cons, List.map_cons, List.filter_cons]
        cases (Text.trim line).isEmpty with
        | true => exact ih (first + 1)
        | false => exact congrArg (Text.trim line :: ·) (ih (first + 1))
  exact numberedFrom (Text.lines text) 1

theorem exists_numberedLines_eq_cons {text first : List Char} {rest : List (List Char)}
    (isText : (Text.lines text).map Text.trim = first :: rest) (nonempty : first ≠ []) :
    ∃ number others, numberedLines text = (number, first) :: others ∧
      others.map Prod.snd = rest.filter fun line => !line.isEmpty := by
  have solid : (!first.isEmpty) = true := by simpa using nonempty
  have contents := map_snd_numberedLines text
  rw [isText, List.filter_cons, if_pos solid] at contents
  obtain ⟨⟨number, line⟩, others, isCons, isFirst, areOthers⟩ := List.map_eq_cons_iff.mp contents
  exact ⟨number, others, by rw [isCons, ← isFirst], areOthers⟩

/-- With a count in front, as many rules are read, and there must be as many lines. -/
theorem readDraft_eq_ok_iff_of_count {text first : List Char} {number : Nat}
    {rest : List (Nat × List Char)} (isText : numberedLines text = (number, first) :: rest)
    (digits : first.all Char.isDigit = true) :
    readDraft conventions text = .ok draft ↔ ∃ count, Text.Decimal.readDigits 0 first = .ok count ∧
      count ≤ rest.length ∧ readRules { conventions } (rest.take count) = .ok draft := by
  rw [readDraft, isText]
  simp only [digits, if_true]
  cases Text.Decimal.readDigits 0 first with
  | error fault => simp
  | ok count =>
      simp only [Except.ok.injEq, exists_eq_left']
      cases readRules { conventions } (rest.take count) with
      | error fault => simp
      | ok found =>
          by_cases short : rest.length < count
          · simp [short, Nat.not_le_of_lt short]
          · simp [short, Nat.le_of_not_lt short]

theorem readDraft_of_missing {text first : List Char} {number count : Nat}
    {rest : List (Nat × List Char)} (isText : numberedLines text = (number, first) :: rest)
    (digits : first.all Char.isDigit = true) (isCount : Text.Decimal.readDigits 0 first = .ok count)
    (isRead : readRules { conventions } rest = .ok draft) (short : rest.length < count) :
    readDraft conventions text = .error
      ((LineFault.missingRules count rest.length).onLine (Text.lines text).length) := by
  have whole : rest.take count = rest := List.take_of_length_le (Nat.le_of_lt short)
  rw [readDraft, isText]
  simp only [digits, isCount, whole, isRead, short, if_true]

theorem readDraft_of_not_count {text first : List Char} {number : Nat}
    {rest : List (Nat × List Char)} (isText : numberedLines text = (number, first) :: rest)
    (noDigits : first.all Char.isDigit = false) :
    readDraft conventions text = readRules { conventions } ((number, first) :: rest) := by
  rw [readDraft, isText]
  simp only [noDigits, Bool.false_eq_true, if_false]

theorem exists_written_of_readRules {numbered : List (Nat × List Char)}
    (ok : readRules { conventions } numbered = .ok draft) : ∃ written : List WrittenRule,
      (∀ rule ∈ written, rule.Legible) ∧
        Draft.ofEntries conventions (written.map WrittenRule.entry) = draft := by
  obtain ⟨written, areRead, isDraft⟩ := readRules_eq_ok_iff.mp ok
  refine ⟨written, fun rule inside => ?_, isDraft⟩
  obtain ⟨line, _, isRead⟩ := List.mem_map.mp (areRead ▸ List.mem_map_of_mem inside)
  exact WrittenRule.legible_of_readRule isRead

/-- A draft that is read from a text is one of legible rules. -/
theorem exists_written_of_readDraft {text : List Char} (ok : readDraft conventions text = .ok draft) :
    ∃ written : List WrittenRule, (∀ rule ∈ written, rule.Legible) ∧
      Draft.ofEntries conventions (written.map WrittenRule.entry) = draft := by
  cases isText : numberedLines text with
  | nil =>
      rw [readDraft, isText] at ok
      exact ⟨[], List.forall_mem_nil _, Except.ok.inj ok⟩
  | cons line rest =>
      obtain ⟨number, first⟩ := line
      cases digits : first.all Char.isDigit with
      | true =>
          obtain ⟨_, _, _, isRead⟩ := (readDraft_eq_ok_iff_of_count isText digits).mp ok
          exact exists_written_of_readRules isRead
      | false =>
          rw [readDraft_of_not_count isText digits] at ok
          exact exists_written_of_readRules ok

section Lines

variable {written : List WrittenRule} (legible : ∀ rule ∈ written, rule.Legible)
include legible

theorem map_snd_numberedLines_text :
    (numberedLines (WrittenRule.text written)).map Prod.snd = written.map WrittenRule.line := by
  have asLines : WrittenRule.text written =
      (written.map WrittenRule.line).flatMap fun line => line ++ ['\n'] := by
    rw [WrittenRule.text, List.flatMap_map]
  have newline : ∀ line ∈ written.map WrittenRule.line, '\n' ∉ line := by
    intro line inside
    obtain ⟨rule, ruleInside, rfl⟩ := List.mem_map.mp inside
    exact (legible rule ruleInside).newline_not_mem_line
  have trimmed : (written.map WrittenRule.line).map Text.trim = written.map WrittenRule.line := by
    rw [List.map_map]
    exact List.map_congr_left fun rule inside => (legible rule inside).trim_line
  rw [map_snd_numberedLines, asLines, Text.map_trim_lines_flatMap newline, trimmed]
  refine List.filter_eq_self.mpr fun line inside => ?_
  obtain ⟨rule, _, rfl⟩ := List.mem_map.mp inside
  rw [Bool.not_eq_true', List.isEmpty_eq_false_iff]
  exact List.ne_nil_of_mem rule.dash_mem_line

/-- Legible rules are read back from their text. -/
theorem readDraft_text : readDraft conventions (WrittenRule.text written) =
    .ok (Draft.ofEntries conventions (written.map WrittenRule.entry)) := by
  have contents := map_snd_numberedLines_text legible
  have areRead : readRules { conventions } (numberedLines (WrittenRule.text written)) =
      .ok (Draft.ofEntries conventions (written.map WrittenRule.entry)) := by
    refine readRules_eq_ok_iff.mpr ⟨written, ?_, rfl⟩
    rw [contents, List.map_map]
    exact List.map_congr_left fun rule inside => (legible rule inside).readRule_line
  cases isText : numberedLines (WrittenRule.text written) with
  | nil =>
      rw [isText] at areRead
      rw [readDraft, isText]
      exact areRead
  | cons line rest =>
      obtain ⟨number, first⟩ := line
      -- The first line holds an arrow, so it is not taken for a count.
      have isFirst : first ∈ written.map WrittenRule.line := by simp [← contents, isText]
      obtain ⟨rule, _, isLine⟩ := List.mem_map.mp isFirst
      rw [readDraft_of_not_count isText (isLine ▸ rule.all_isDigit_line), ← isText, areRead]

end Lines

end Draft

end Grammar

end Lookahead
