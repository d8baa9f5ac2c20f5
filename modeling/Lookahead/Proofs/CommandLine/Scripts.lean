import Lookahead.CommandLine.Dialogue

/-!
# Scripts of a dialogue

Where a choice is asked for, the lines of a dialogue fall into sessions, each with the
line that chooses a parser in front and the empty line that ends it behind, and into
lines that say nothing, in one way only.
-/

namespace Lookahead.CommandLine

/-! ## Choices -/

def ParserKind.letter : ParserKind → Char
  | .ll1 => 'T'
  | .slr1 => 'B'

/--
A line is a letter, in either case, with blanks around it.  Outside the basic letters no character
has one of the letters that are asked for as its capital.
-/
def Spells (letter : Char) (line : List Char) : Prop :=
  (Text.trim line).map Char.toUpper = [letter]

instance (letter : Char) (line : List Char) : Decidable (Spells letter line) :=
  inferInstanceAs (Decidable (_ = _))

def IsSmall (character : Char) : Prop :=
  'a'.val ≤ character.val ∧ character.val ≤ 'z'.val

instance (character : Char) : Decidable (IsSmall character) :=
  inferInstanceAs (Decidable (_ ∧ _))

theorem val_toUpper {character : Char} (isSmall : IsSmall character) :
    character.toUpper.val = character.val + ('A'.val - 'a'.val) := by
  have shifted : character.toUpper = _ := dif_pos isSmall
  rw [shifted]

theorem toUpper_eq_self {character : Char} (notSmall : ¬ IsSmall character) :
    character.toUpper = character :=
  dif_neg notSmall

theorem toUpper_eq_iff {capital small : Char} (isSmall : IsSmall small)
    (fixed : capital.toUpper = capital) (isCapital : small.toUpper = capital) (character : Char) :
    character.toUpper = capital ↔ character = capital ∨ character = small := by
  constructor
  · intro same
    by_cases another : IsSmall character
    · rw [← isCapital] at same
      have shifted := congrArg Char.val same
      rw [val_toUpper another, val_toUpper isSmall] at shifted
      exact .inr (Char.ext ((UInt32.add_left_inj _).mp shifted))
    · exact .inl ((toUpper_eq_self another).symm.trans same)
  · rintro (rfl | rfl)
    · exact fixed
    · exact isCapital

theorem spells_iff {capital small : Char} (isSmall : IsSmall small)
    (fixed : capital.toUpper = capital) (isCapital : small.toUpper = capital) (line : List Char) :
    Spells capital line ↔ Text.trim line = [capital] ∨ Text.trim line = [small] := by
  simp only [Spells, List.map_eq_singleton_iff, toUpper_eq_iff isSmall fixed isCapital]
  constructor
  · rintro ⟨character, isLine, rfl | rfl⟩
    · exact .inl isLine
    · exact .inr isLine
  · rintro (isLine | isLine)
    · exact ⟨capital, isLine, .inl rfl⟩
    · exact ⟨small, isLine, .inr rfl⟩

variable {line : List Char} {kind : ParserKind}

theorem spells_t_iff : Spells 'T' line ↔ Text.trim line = ['T'] ∨ Text.trim line = ['t'] :=
  spells_iff (by decide : IsSmall 't') rfl rfl line

theorem spells_b_iff : Spells 'B' line ↔ Text.trim line = ['B'] ∨ Text.trim line = ['b'] :=
  spells_iff (by decide : IsSmall 'b') rfl rfl line

theorem spells_q_iff : Spells 'Q' line ↔ Text.trim line = ['Q'] ∨ Text.trim line = ['q'] :=
  spells_iff (by decide : IsSmall 'q') rfl rfl line

theorem choice?_eq_test_iff : choice? line = some (.test kind) ↔ Spells kind.letter line := by
  cases kind with
  | ll1 =>
      rw [ParserKind.letter, spells_t_iff, choice?]
      split <;> simp_all
  | slr1 =>
      rw [ParserKind.letter, spells_b_iff, choice?]
      split <;> simp_all

theorem choice?_eq_quit_iff : choice? line = some .quit ↔ Spells 'Q' line := by
  rw [spells_q_iff, choice?]
  split <;> simp_all

theorem Spells.kind_eq {other : ParserKind} (one : Spells kind.letter line)
    (two : Spells other.letter line) : kind = other := by
  have same := (choice?_eq_test_iff.mpr one).symm.trans (choice?_eq_test_iff.mpr two)
  exact Choice.test.inj (Option.some.inj same)

theorem Spells.not_quit (chooses : Spells kind.letter line) : ¬ Spells 'Q' line := by
  intro quits
  cases (choice?_eq_test_iff.mpr chooses).symm.trans (choice?_eq_quit_iff.mpr quits)

def SaysNothing (line : List Char) : Prop :=
  ¬ Spells 'T' line ∧ ¬ Spells 'B' line ∧ ¬ Spells 'Q' line

instance (line : List Char) : Decidable (SaysNothing line) :=
  inferInstanceAs (Decidable (_ ∧ _))

theorem choice?_eq_none_iff : choice? line = none ↔ SaysNothing line := by
  rw [SaysNothing, spells_t_iff, spells_b_iff, spells_q_iff, choice?]
  split <;> simp_all

/-! ## Sessions -/

/-- Lines that say nothing, the line behind them that chooses a parser, and the inputs behind that. -/
@[ext]
structure Session where
  ignored : List (List Char)
  choice : List Char
  kind : ParserKind
  inputs : List (List Char)

namespace Session

def lines (session : Session) : List (List Char) :=
  session.ignored ++ session.choice :: session.inputs

structure Fits (session : Session) : Prop where
  ignored : ∀ line ∈ session.ignored, SaysNothing line
  choice : Spells session.kind.letter session.choice
  inputs : ∀ line ∈ session.inputs, inputOf line ≠ []

end Session

/--
What lines are taken for: after sessions, each with the empty line that ends it, they end while a
choice is asked for, behind a choice to quit, or within a session.
-/
inductive Script where
  | asked (ignored : List (List Char))
  | quit (ignored : List (List Char)) (choice : List Char) (unread : List (List Char))
  | within (session : Session)
  | ended (session : Session) (blank : List Char) (later : Script)

namespace Script

def lines : Script → List (List Char)
  | .asked ignored => ignored
  | .quit ignored choice unread => ignored ++ choice :: unread
  | .within session => session.lines
  | .ended session blank later => session.lines ++ blank :: later.lines

def unread : Script → List (List Char)
  | .quit _ _ unread => unread
  | .asked _ | .within _ => []
  | .ended _ _ later => later.unread

/-- All sessions, with the one that the end of the lines ends. -/
def sessions : Script → List Session
  | .asked _ | .quit _ _ _ => []
  | .within session => [session]
  | .ended session _ later => session :: later.sessions

def Fits : Script → Prop
  | .asked ignored => ∀ line ∈ ignored, SaysNothing line
  | .quit ignored choice _ => (∀ line ∈ ignored, SaysNothing line) ∧ Spells 'Q' choice
  | .within session => session.Fits
  | .ended session blank later => session.Fits ∧ inputOf blank = [] ∧ later.Fits

end Script

/-- Up to its first value, if there is one, that does not have a property, a list has it. -/
theorem exists_first {α : Type} (holds : α → Prop) (values : List α) :
    (∀ value ∈ values, holds value) ∨ ∃ before value after, values = before ++ value :: after ∧
      (∀ earlier ∈ before, holds earlier) ∧ ¬ holds value := by
  classical
  cases found : values.find? fun value => decide (¬ holds value) with
  | none => exact .inl (by simpa using found)
  | some value =>
      obtain ⟨fails, before, after, isValues, all⟩ := List.find?_eq_some_iff_append.mp found
      exact .inr ⟨before, value, after, isValues, by simpa using all, by simpa using fails⟩

/-- Only one value of a list is the first that does not have a property. -/
theorem first_unique {α : Type} {holds : α → Prop} {before others after rest : List α}
    {value other : α} (same : before ++ value :: after = others ++ other :: rest)
    (all : ∀ earlier ∈ before, holds earlier) (fails : ¬ holds value)
    (allOthers : ∀ earlier ∈ others, holds earlier) (otherFails : ¬ holds other) :
    before = others ∧ value = other ∧ after = rest := by
  induction before generalizing others with
  | nil =>
      cases others with
      | nil => exact ⟨rfl, List.cons.inj same⟩
      | cons head tail =>
          have isHead := (List.cons.inj same).1
          exact absurd (isHead ▸ allOthers head List.mem_cons_self) fails
  | cons head tail ih =>
      cases others with
      | nil =>
          have isHead := (List.cons.inj same).1
          exact absurd (isHead ▸ all head List.mem_cons_self) otherFails
      | cons first more =>
          obtain ⟨sameHead, sameTail⟩ := List.cons.inj same
          obtain ⟨sameMore, sameRest⟩ := ih sameTail (List.forall_mem_cons.mp all).2
            (List.forall_mem_cons.mp allOthers).2
          exact ⟨by rw [sameHead, sameMore], sameRest⟩

/-- Whatever lines are read, they are those of a script. -/
theorem exists_script (lines : List (List Char)) :
    ∃ script : Script, script.Fits ∧ script.lines = lines := by
  generalize isLength : lines.length = length
  induction length using Nat.strongRecOn generalizing lines with
  | ind length ih =>
      rcases exists_first SaysNothing lines with
        nothing | ⟨ignored, choice, rest, rfl, nothing, speaks⟩
      · exact ⟨.asked lines, nothing, rfl⟩
      · cases chosen : choice? choice with
        | none => exact absurd (choice?_eq_none_iff.mp chosen) speaks
        | some wish =>
            cases wish with
            | quit =>
                exact ⟨.quit ignored choice rest, ⟨nothing, choice?_eq_quit_iff.mp chosen⟩, rfl⟩
            | test kind =>
                have starts := choice?_eq_test_iff.mp chosen
                rcases exists_first (inputOf · ≠ []) rest with
                  filled | ⟨inputs, blank, more, rfl, filled, empty⟩
                · exact ⟨.within ⟨ignored, choice, kind, rest⟩, ⟨nothing, starts, filled⟩, rfl⟩
                · have shorter : more.length < length := by
                    rw [← isLength]
                    simp only [List.length_append, List.length_cons]
                    omega
                  obtain ⟨later, fits, isMore⟩ := ih _ shorter more rfl
                  refine ⟨.ended ⟨ignored, choice, kind, inputs⟩ blank later,
                    ⟨⟨nothing, starts, filled⟩, Decidable.not_not.mp empty, fits⟩, ?_⟩
                  simp only [Script.lines, Session.lines, isMore, List.append_assoc, List.cons_append]

namespace Session

variable {session other : Session} {rest others : List (List Char)}

theorem Fits.speaks (fits : session.Fits) : ¬ SaysNothing session.choice := by
  rw [← choice?_eq_none_iff, choice?_eq_test_iff.mpr fits.choice]
  exact Option.some_ne_none _

/-- Lines start with one session at most, up to its inputs. -/
theorem Fits.front_unique (fits : session.Fits) (otherFits : other.Fits)
    (same : session.lines ++ rest = other.lines ++ others) :
    session.ignored = other.ignored ∧ session.choice = other.choice ∧ session.kind = other.kind ∧
      session.inputs ++ rest = other.inputs ++ others := by
  simp only [lines, List.append_assoc, List.cons_append] at same
  obtain ⟨sameIgnored, sameChoice, sameInputs⟩ :=
    first_unique same fits.ignored fits.speaks otherFits.ignored otherFits.speaks
  exact ⟨sameIgnored, sameChoice, Spells.kind_eq fits.choice (sameChoice ▸ otherFits.choice),
    sameInputs⟩

end Session

namespace Script

variable {script other : Script}

/-- All but the scripts without a choice have a line that says something. -/
theorem Fits.asked_or_speaks (fits : script.Fits) :
    (∃ ignored, script = .asked ignored) ∨ ∃ line ∈ script.lines, ¬ SaysNothing line := by
  cases script with
  | asked ignored => exact .inl ⟨ignored, rfl⟩
  | quit ignored choice unread =>
      refine .inr ⟨choice, by simp [lines], ?_⟩
      rw [← choice?_eq_none_iff, choice?_eq_quit_iff.mpr fits.2]
      exact Option.some_ne_none _
  | within session =>
      exact .inr ⟨session.choice, by simp [lines, Session.lines], Session.Fits.speaks fits⟩
  | ended session blank later =>
      exact .inr ⟨session.choice, by simp [lines, Session.lines], fits.1.speaks⟩

theorem not_asked {ignored : List (List Char)} (nothing : ∀ line ∈ ignored, SaysNothing line)
    (fits : script.Fits) (same : script.lines = ignored) : script = .asked ignored := by
  rcases fits.asked_or_speaks with ⟨all, rfl⟩ | ⟨line, known, speaks⟩
  · exact congrArg _ same
  · exact absurd (nothing line (same ▸ known)) speaks

/-- A choice to quit is not where a session starts. -/
theorem quit_ne_session {ignored unread rest : List (List Char)} {session : Session}
    (nothing : ∀ line ∈ ignored, SaysNothing line) (quits : Spells 'Q' line) (fits : session.Fits) :
    ignored ++ line :: unread ≠ session.lines ++ rest := by
  intro same
  rw [Session.lines, List.append_assoc, List.cons_append] at same
  have speaks : ¬ SaysNothing line := fun silent => silent.2.2 quits
  obtain ⟨_, sameChoice, _⟩ := first_unique same nothing speaks fits.ignored fits.speaks
  exact Spells.not_quit fits.choice (sameChoice ▸ quits)

/-- Lines are those of one script only. -/
theorem Fits.unique (fits : script.Fits) (otherFits : other.Fits)
    (same : script.lines = other.lines) : script = other := by
  induction script generalizing other with
  | asked ignored => exact (not_asked fits otherFits same.symm).symm
  | quit ignored choice unread =>
      obtain ⟨nothing, quits⟩ := fits
      cases other with
      | asked others => exact not_asked otherFits ⟨nothing, quits⟩ same
      | quit others otherChoice otherUnread =>
          obtain ⟨rfl, rfl, rfl⟩ := first_unique same nothing (fun silent => silent.2.2 quits)
            otherFits.1 (fun silent => silent.2.2 otherFits.2)
          rfl
      | within session =>
          rw [lines, lines, ← List.append_nil session.lines] at same
          exact absurd same (quit_ne_session nothing quits otherFits)
      | ended session blank later => exact absurd same (quit_ne_session nothing quits otherFits.1)
  | within session =>
      cases other with
      | asked others => exact not_asked otherFits fits same
      | quit others otherChoice otherUnread =>
          rw [lines, lines, ← List.append_nil session.lines] at same
          exact absurd same.symm (quit_ne_session otherFits.1 otherFits.2 fits)
      | within other =>
          rw [lines, lines, ← List.append_nil session.lines, ← List.append_nil other.lines] at same
          obtain ⟨sameIgnored, sameChoice, sameKind, sameInputs⟩ :=
            Session.Fits.front_unique fits otherFits same
          rw [List.append_nil, List.append_nil] at sameInputs
          exact congrArg _ (Session.ext sameIgnored sameChoice sameKind sameInputs)
      | ended other blank later =>
          rw [lines, lines, ← List.append_nil session.lines] at same
          obtain ⟨_, _, _, sameInputs⟩ := Session.Fits.front_unique fits otherFits.1 same
          rw [List.append_nil] at sameInputs
          exact absurd otherFits.2.1 (fits.inputs blank (by simp [sameInputs]))
  | ended session blank later ih =>
      obtain ⟨sessionFits, isBlank, laterFits⟩ := fits
      cases other with
      | asked others => exact not_asked otherFits ⟨sessionFits, isBlank, laterFits⟩ same
      | quit others otherChoice otherUnread =>
          exact absurd same.symm (quit_ne_session otherFits.1 otherFits.2 sessionFits)
      | within other =>
          rw [lines, lines, ← List.append_nil other.lines] at same
          obtain ⟨_, _, _, sameInputs⟩ := sessionFits.front_unique otherFits same
          rw [List.append_nil] at sameInputs
          exact absurd isBlank (otherFits.inputs blank (by simp [← sameInputs]))
      | ended other otherBlank otherLater =>
          obtain ⟨otherSessionFits, otherIsBlank, otherLaterFits⟩ := otherFits
          obtain ⟨sameIgnored, sameChoice, sameKind, sameFront⟩ :=
            sessionFits.front_unique otherSessionFits same
          obtain ⟨sameInputs, sameBlank, sameLater⟩ := first_unique sameFront sessionFits.inputs
            (not_not_intro isBlank) otherSessionFits.inputs (not_not_intro otherIsBlank)
          rw [Session.ext sameIgnored sameChoice sameKind sameInputs, sameBlank,
            ih laterFits otherLaterFits sameLater]

end Script

end Lookahead.CommandLine
