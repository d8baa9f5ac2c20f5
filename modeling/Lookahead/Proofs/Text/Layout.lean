import Mathlib.Data.List.DropRight
import Mathlib.Data.List.Infix
import Lookahead.Text.Lines
import Lookahead.Text.Words

/-!
# Layout of a text

Blanks at the ends of a line and the way its end is written do not count: lines are
read back from behind each other up to trimming, and words from behind blanks.
-/

namespace Lookahead.Text

variable {text line : List Char} {character : Char}

theorem isBlank_space : isBlank ' ' = true := rfl

theorem trim_eq_rdropWhile (text : List Char) :
    trim text = (text.dropWhile isBlank).rdropWhile isBlank := rfl

theorem trim_infix (text : List Char) : trim text <:+: text :=
  (List.rdropWhile_prefix _ _).isInfix.trans (List.dropWhile_suffix _).isInfix

/-- A text without blanks at its ends is not trimmed. -/
theorem trim_eq_self (starts : ∀ character, text.head? = some character → isBlank character = false)
    (ends : ∀ character, text.getLast? = some character → isBlank character = false) :
    trim text = text := by
  have kept : text.dropWhile isBlank = text := by
    cases text with
    | nil => rfl
    | cons head rest => rw [List.dropWhile_cons, starts head rfl, if_neg Bool.false_ne_true]
  rw [trim_eq_rdropWhile, kept, List.rdropWhile_eq_self_iff]
  intro nonempty
  rw [ends _ (List.getLast?_eq_some_getLast nonempty)]
  exact Bool.false_ne_true

theorem trim_trim (text : List Char) : trim (trim text) = trim text := by
  have kept : (trim text).dropWhile isBlank = trim text := by
    cases isTrimmed : trim text with
    | nil => rfl
    | cons head rest =>
        obtain ⟨dropped, isDropped⟩ := List.rdropWhile_prefix isBlank (text.dropWhile isBlank)
        rw [← trim_eq_rdropWhile, isTrimmed, List.cons_append] at isDropped
        have headSolid := List.head?_dropWhile_not isBlank text
        rw [← isDropped] at headSolid
        exact List.dropWhile_cons_of_neg (by simpa using headSolid)
  rw [trim_eq_rdropWhile (trim text), kept, trim_eq_rdropWhile]
  exact List.rdropWhile_idempotent isBlank _

theorem trim_append_blank (text : List Char) (blank : isBlank character = true) :
    trim (text ++ [character]) = trim text := by
  rw [trim_eq_rdropWhile, trim_eq_rdropWhile, List.dropWhile_append]
  split
  · rename_i isNil
    rw [List.isEmpty_iff.mp isNil, List.dropWhile_cons_of_pos blank]
    rfl
  · exact List.rdropWhile_concat_pos isBlank _ character blank

/-- The words of a text are read back from behind blanks. -/
theorem words_flatMap_spaced {spaced : List (List Char)}
    (clear : ∀ word ∈ spaced, word ≠ [] ∧ ∀ character ∈ word, isBlank character = false) :
    words (spaced.flatMap fun word => ' ' :: word) = spaced := by
  have noWord : words [] = [] := rfl
  induction spaced using List.reverseRecOn with
  | nil => rfl
  | append_singleton others last ih =>
      obtain ⟨nonempty, lastClear⟩ := clear last (by simp)
      rw [List.flatMap_append, List.flatMap_singleton, words_append_blank _ _ isBlank_space,
        ih fun word inside => clear word (by simp [inside]), words_of_no_blank last nonempty lastClear]

/-- Characters that end no line stay in front of the first line of the rest. -/
theorem lines_append {front rest line : List Char} {more : List (List Char)} (newline : '\n' ∉ front)
    (starts : rest.head? ≠ some '\n') (split : lines rest = line :: more) :
    lines (front ++ rest) = (front ++ line) :: more := by
  induction front with
  | nil => exact split
  | cons head tail ih =>
      rw [List.mem_cons, not_or] at newline
      refine lines_cons head _ (Ne.symm newline.1) ?_ _ _ (ih newline.2)
      rintro ⟨_, isNewline⟩
      cases tail with
      | nil => exact starts isNewline
      | cons second others => exact newline.2 (by simp [Option.some.inj isNewline])

/-- A line is read back from before a newline, but for a carriage return at its end. -/
theorem exists_lines_append_newline (rest : List Char) (newline : '\n' ∉ line) :
    ∃ kept, lines (line ++ '\n' :: rest) = kept :: lines rest ∧ trim kept = trim line := by
  by_cases carriage : line.getLast? = some '\r'
  · obtain ⟨front, isLine⟩ := List.getLast?_eq_some_iff.mp carriage
    have blank : isBlank '\r' = true := rfl
    have ended : lines ('\r' :: '\n' :: rest) = [] :: lines rest := by rw [lines]
    refine ⟨front, ?_, by rw [isLine, trim_append_blank front blank]⟩
    rw [isLine, List.append_assoc]
    refine (lines_append ?_ (by simp) ended).trans (by rw [List.append_nil])
    exact fun found => newline (isLine ▸ List.mem_append_left _ found)
  · exact ⟨line, lines_append_newline line rest newline carriage, rfl⟩

/-- Lines with newlines behind them are read back up to trimming. -/
theorem map_trim_lines_flatMap {written : List (List Char)} (newline : ∀ line ∈ written, '\n' ∉ line) :
    (lines (written.flatMap fun line => line ++ ['\n'])).map trim = written.map trim := by
  induction written with
  | nil => rfl
  | cons line others ih =>
      obtain ⟨kept, split, sameTrimmed⟩ := exists_lines_append_newline
        (others.flatMap fun line => line ++ ['\n']) (newline line List.mem_cons_self)
      rw [List.flatMap_cons, List.append_assoc, List.singleton_append, split, List.map_cons,
        List.map_cons, sameTrimmed, ih fun line inside => newline line (List.mem_cons_of_mem _ inside)]

theorem newline_not_mem_of_mem_lines (inside : line ∈ lines text) : '\n' ∉ line := by
  fun_induction lines text generalizing line with
  | case1 => exact absurd inside List.not_mem_nil
  | case2 rest ih =>
      rcases List.mem_cons.mp inside with isNil | later
      · exact isNil ▸ List.not_mem_nil
      · exact ih later
  | case3 rest ih =>
      rcases List.mem_cons.mp inside with isNil | later
      · exact isNil ▸ List.not_mem_nil
      · exact ih later
  | case4 character rest _ newline isNil ih =>
      rw [List.mem_singleton.mp inside, List.mem_singleton]
      exact fun same => newline same.symm
  | case5 character rest _ newline first more split ih =>
      rcases List.mem_cons.mp inside with isFirst | later
      · rw [isFirst, List.mem_cons, not_or]
        exact ⟨fun same => newline same.symm, ih (split ▸ List.mem_cons_self)⟩
      · exact ih (split ▸ List.mem_cons_of_mem _ later)

end Lookahead.Text
