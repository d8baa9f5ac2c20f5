import Lookahead.Text.Blank

/-!
# Words of a line

Blanks around a text are trimmed, and blanks inside it separate its words.
-/

namespace Lookahead.Text

def trim (text : List Char) : List Char :=
  ((text.dropWhile isBlank).reverse.dropWhile isBlank).reverse

def words (text : List Char) : List (List Char) :=
  (text.splitOnP isBlank).filter fun word => !word.isEmpty

theorem words_append_blank (first second : List Char) {blank : Char}
    (isSeparator : isBlank blank = true) :
    words (first ++ blank :: second) = words first ++ words second := by
  unfold words
  rw [List.splitOnP_append_cons first second isSeparator, List.filter_append]

theorem not_blank_of_mem_splitOnP (text word : List Char) (found : word ∈ text.splitOnP isBlank)
    (character : Char) (inside : character ∈ word) : isBlank character = false := by
  induction text generalizing word with
  | nil =>
      simp only [List.splitOnP_nil, List.mem_singleton] at found
      subst found
      exact absurd inside List.not_mem_nil
  | cons head rest ih =>
      rw [List.splitOnP_cons_eq_if_modifyHead] at found
      split at found
      · rcases List.mem_cons.mp found with here | later
        · subst here; exact absurd inside List.not_mem_nil
        · exact ih word later inside
      · rename_i notBlank
        cases pieces : rest.splitOnP isBlank with
        | nil => simp [pieces] at found
        | cons piece others =>
            rw [pieces, List.modifyHead_cons] at found
            rcases List.mem_cons.mp found with here | later
            · subst here
              rcases List.mem_cons.mp inside with same | deeper
              · subst same; simpa using notBlank
              · exact ih piece (by simp [pieces]) deeper
            · exact ih word (by simp [pieces, later]) inside

/-- A word is not empty and holds no blank. -/
theorem forall_mem_words (text word : List Char) (found : word ∈ words text) :
    word ≠ [] ∧ ∀ character ∈ word, isBlank character = false := by
  obtain ⟨piece, nonempty⟩ := List.mem_filter.mp found
  exact ⟨by simpa using nonempty, fun character inside =>
    not_blank_of_mem_splitOnP text word piece character inside⟩

/-- A text without blanks is its own only word. -/
theorem words_of_no_blank (text : List Char) (nonempty : text ≠ [])
    (clear : ∀ character ∈ text, isBlank character = false) : words text = [text] := by
  unfold words
  rw [List.splitOnP_eq_singleton fun character inside => by
    simpa using clear character inside]
  simp [nonempty]

end Lookahead.Text
