/-!
# Lines of a text

A line ends at a newline, with one carriage return before it, or at the end of
the text.  Nothing after the last newline is no line.
-/

namespace Lookahead.Text

def lines : List Char → List (List Char)
  | [] => []
  | '\r' :: '\n' :: rest => [] :: lines rest
  | '\n' :: rest => [] :: lines rest
  | character :: rest =>
      match lines rest with
      | [] => [[character]]
      | line :: more => (character :: line) :: more

theorem lines_newline (rest : List Char) : lines ('\n' :: rest) = [] :: lines rest := by
  rw [lines]

theorem lines_cons_newline (character : Char) (rest : List Char) (newline : character ≠ '\n')
    (carriage : character ≠ '\r') :
    lines (character :: '\n' :: rest) = [character] :: lines rest := by
  rw [lines]
  · rw [lines_newline]
  · rintro tail rfl
    exact absurd rfl carriage
  · rintro rfl
    exact newline rfl

/-- A character that ends no line stays in front of the first line of the rest. -/
theorem lines_cons (character : Char) (rest : List Char) (newline : character ≠ '\n')
    (ended : ¬ (character = '\r' ∧ rest.head? = some '\n')) (line : List Char)
    (more : List (List Char)) (split : lines rest = line :: more) :
    lines (character :: rest) = (character :: line) :: more := by
  rw [lines]
  · rw [split]
  · rintro tail same rfl
    exact ended ⟨same, rfl⟩
  · exact fun same => newline same

/-- A line without line ends of its own is read back from before a newline. -/
theorem lines_append_newline (line rest : List Char) (newline : '\n' ∉ line)
    (carriage : line.getLast? ≠ some '\r') :
    lines (line ++ '\n' :: rest) = line :: lines rest := by
  induction line with
  | nil => exact lines_newline rest
  | cons character tail ih =>
      have headNewline : character ≠ '\n' := fun same => newline (by simp [same])
      have tailNewline : '\n' ∉ tail := fun found => newline (by simp [found])
      cases tail with
      | nil =>
          have headCarriage : character ≠ '\r' := fun same => carriage (by simp [same])
          exact lines_cons_newline character rest headNewline headCarriage
      | cons second others =>
          have secondNewline : second ≠ '\n' := fun same => tailNewline (by simp [same])
          refine lines_cons character _ headNewline ?_ _ _ (ih tailNewline ?_)
          · rintro ⟨_, same⟩
            exact secondNewline (by simpa using same)
          · simpa using carriage

end Lookahead.Text
