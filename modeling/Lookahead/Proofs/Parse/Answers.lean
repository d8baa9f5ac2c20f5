import Lookahead.Parse.Error
import Lookahead.Proofs.Grammar.Viable

/-!
# Right answers

An answer is right when it accepts the words of the grammar with the end marker
behind them, and rejects any other input at the end of its longest viable front.
There is one right answer for an input, up to the wording of a rejection.
-/

namespace Lookahead

namespace Grammar

def Accepts (grammar : Grammar) (input : List Symbol) : Prop :=
  ∃ word, input = word ++ [.endMarker] ∧ grammar.Yields [.nonterminal grammar.start] word

/-- What a parser ought to answer for an input; the tables are never at fault. -/
def Answers (grammar : Grammar) (input : List Symbol) : ParseResult → Prop
  | .ok _ => grammar.Accepts input
  | .error (.rejected rejection) =>
      grammar.LongestViable input rejection.position ∧ rejection.position < input.length
  | .error (.violated _) => False

variable {grammar : Grammar} {input read : List Symbol}

theorem Accepts.viable (accepts : grammar.Accepts input) : grammar.Viable input := by
  obtain ⟨word, same, yields⟩ := accepts
  rw [viable_iff_leads, same]
  exact yields.leads_append (.input rfl (.nil []))

/-- An input that begins with no viable front longer than what is read is rejected there. -/
theorem LongestViable.of_append {rest : List Symbol} (splits : input = read ++ rest)
    (viable : grammar.Viable read)
    (stuck : ∀ head more, rest = head :: more → ¬ grammar.Viable (read ++ [head])) :
    grammar.LongestViable input read.length := by
  subst splits
  refine ⟨by simp, by simpa using viable, ?_⟩
  intro other le longer
  refine Nat.le_of_not_lt fun less => ?_
  cases rest with
  | nil =>
      rw [List.append_nil] at le
      exact Nat.lt_irrefl _ (Nat.lt_of_lt_of_le less le)
  | cons head more =>
      obtain ⟨extra, isExtra⟩ := Nat.exists_eq_add_of_lt less
      have front : (read ++ head :: more).take other = (read ++ [head]) ++ more.take extra := by
        rw [isExtra, Nat.add_assoc, List.take_length_add_append, List.take_succ_cons]
        simp
      rw [front] at longer
      exact stuck head more rfl longer.of_append

namespace Answers

/-- The first unread symbol cannot come after what is read. -/
theorem rejected {rejection : Rejection} {head : Symbol} {more : List Symbol}
    (splits : input = read ++ head :: more) (viable : grammar.Viable read)
    (stuck : ¬ grammar.Viable (read ++ [head])) (here : rejection.position = read.length) :
    grammar.Answers input (.error (.rejected rejection)) := by
  refine ⟨?_, ?_⟩
  · rw [here]
    apply LongestViable.of_append splits viable
    intro other rest same
    exact (List.cons.inj same).1 ▸ stuck
  · rw [here, splits]
    simp

/-- A word of the grammar is read, and the end marker is not the last symbol of the input. -/
theorem trailing (wellFormed : grammar.WellFormed) {rejection : Rejection} {more : List Symbol}
    (splits : input = read ++ .endMarker :: more) (goesOn : more ≠ [])
    (yields : grammar.Yields [.nonterminal grammar.start] read)
    (here : rejection.position = read.length + 1) :
    grammar.Answers input (.error (.rejected rejection)) := by
  obtain ⟨head, others, isCons⟩ := List.exists_cons_of_ne_nil goesOn
  have accepts : grammar.Accepts (read ++ [.endMarker]) := ⟨read, rfl, yields⟩
  have beyond : input = (read ++ [.endMarker]) ++ head :: others := by
    rw [splits, isCons, List.append_assoc]
    rfl
  apply rejected beyond accepts.viable
  · intro viable
    have longer : grammar.Viable (read ++ .endMarker :: [head]) := by simpa using viable
    exact absurd (longer.eq_nil_of_endMarker wellFormed) (by simp)
  · rw [here, List.length_append]
    rfl

/-- A right answer accepts exactly the words of the grammar. -/
theorem ok_iff {result : ParseResult} (answers : grammar.Answers input result) :
    result = .ok () ↔ grammar.Accepts input := by
  constructor
  · rintro rfl
    exact answers
  · intro accepts
    cases result with
    | ok => rfl
    | error error =>
        cases error with
        | violated => exact answers.elim
        | rejected rejection =>
            obtain ⟨longest, inside⟩ := answers
            have whole := longest.longest input.length (Nat.le_refl _) (by simpa using accepts.viable)
            exact absurd (Nat.lt_of_lt_of_le inside whole) (Nat.lt_irrefl _)

/-- Two right answers agree, and reject at the same place. -/
theorem agree {first second : ParseResult} (one : grammar.Answers input first)
    (other : grammar.Answers input second) :
    first = .ok () ∧ second = .ok () ∨
      ∃ left right : Rejection, first = .error (.rejected left) ∧
        second = .error (.rejected right) ∧ left.position = right.position := by
  by_cases accepts : grammar.Accepts input
  · exact .inl ⟨one.ok_iff.mpr accepts, other.ok_iff.mpr accepts⟩
  · match first, second, one, other with
    | .ok _, _, one, _ => exact absurd one accepts
    | _, .ok _, _, other => exact absurd other accepts
    | .error (.violated _), _, one, _ => exact one.elim
    | _, .error (.violated _), _, other => exact other.elim
    | .error (.rejected left), .error (.rejected right), one, other =>
        exact .inr ⟨left, right, rfl, rfl, one.1.unique other.1⟩

end Answers

/-- Acceptance in terms of derivations. -/
theorem accepts_iff (wellFormed : grammar.WellFormed) {word : List Symbol}
    (ends : input = word ++ [.endMarker]) :
    grammar.Accepts input ↔
      Terminals word ∧ grammar.Derives [.nonterminal grammar.start] word := by
  rw [terminals_and_derives_iff_yields wellFormed]
  constructor
  · rintro ⟨other, same, yields⟩
    obtain ⟨sameWord, _⟩ := List.append_inj' (ends.symm.trans same) rfl
    exact sameWord ▸ yields
  · intro yields
    exact ⟨word, ends, yields⟩

end Grammar

end Lookahead
