import Lookahead.CommandLine.Program
import Lookahead.Proofs.Grammar.RoundTrip

/-!
# Counted grammars on the lines of the input

The lines of the input are counted as they come, and the rules of a text are counted
without its blank lines.  The two agree as long as no counted line is blank.
-/

namespace Lookahead

namespace Text

def isSolid (line : List Char) : Bool := !(trim line).isEmpty

def behindSolid : Nat → List (List Char) → List (List Char)
  | 0, lines => lines
  | _ + 1, [] => []
  | count + 1, line :: rest =>
      if isSolid line then behindSolid count rest else behindSolid (count + 1) rest

variable {count : Nat} {lines : List (List Char)}

theorem length_behindSolid_le (enough : count ≤ (lines.filter isSolid).length) :
    (behindSolid count lines).length + count ≤ lines.length := by
  induction lines generalizing count with
  | nil =>
      obtain rfl := Nat.le_zero.mp enough
      exact Nat.le_refl 0
  | cons line rest ih =>
      cases count with
      | zero => exact Nat.le_refl _
      | succ count =>
          by_cases solid : isSolid line
          · rw [List.filter_cons_of_pos solid] at enough
            rw [behindSolid, if_pos solid]
            exact Nat.succ_le_succ (ih (Nat.le_of_succ_le_succ enough))
          · rw [List.filter_cons_of_neg solid] at enough
            rw [behindSolid, if_neg solid]
            exact Nat.le_succ_of_le (ih enough)

/-- As many lines as there are solid ones are dropped when those come first. -/
theorem drop_eq_behindSolid_iff (enough : count ≤ (lines.filter isSolid).length) :
    lines.drop count = behindSolid count lines ↔ ∀ line ∈ lines.take count, isSolid line = true := by
  induction lines generalizing count with
  | nil =>
      obtain rfl := Nat.le_zero.mp enough
      simp [behindSolid]
  | cons line rest ih =>
      cases count with
      | zero => simp [behindSolid]
      | succ count =>
          by_cases solid : isSolid line
          · rw [List.filter_cons_of_pos solid] at enough
            rw [behindSolid, if_pos solid, List.drop_succ_cons, List.take_succ_cons,
              List.forall_mem_cons, ih (Nat.le_of_succ_le_succ enough)]
            exact (and_iff_right solid).symm
          · rw [List.filter_cons_of_neg solid] at enough
            rw [behindSolid, if_neg solid, List.drop_succ_cons, List.take_succ_cons,
              List.forall_mem_cons]
            refine iff_of_false (fun same => ?_) fun both => solid both.1
            have shorter := length_behindSolid_le enough
            rw [← same, List.length_drop] at shorter
            have wide := Nat.le_trans enough (List.length_filter_le isSolid rest)
            omega

theorem filter_take_prefix {α : Type} (holds : α → Bool) (count : Nat) (values : List α) :
    (values.take count).filter holds <+: (values.filter holds).take count :=
  List.prefix_take_iff.mpr ⟨(List.take_prefix count values).filter holds,
    Nat.le_trans (List.length_filter_le _ _) (List.length_take_le _ _)⟩

/-- A text of digits is no number with a sign. -/
theorem Decimal.read_eq_readDigits {digits : List Char} (nonempty : digits ≠ [])
    (all : digits.all Char.isDigit = true) : Decimal.read digits = Decimal.readDigits 0 digits := by
  unfold Decimal.read
  split
  · exact absurd rfl nonempty
  · cases all
  · cases all
  · rfl

end Text

namespace CommandLine.CountedText

open Text (isSolid behindSolid)

variable {conventions : Conventions} {grammar : Grammar} {first : List Char}
  {rest : List (List Char)} {count : Nat}

def taken (first : List Char) (rest : List (List Char)) (count : Nat) : List Char :=
  (Text.trim first :: rest.take count).flatMap fun line => line ++ ['\n']

theorem ofLines_eq_ok (isCount : Text.Decimal.read (Text.trim first) = .ok count)
    (enough : count ≤ rest.length) :
    ofLines (first :: rest) = .ok ⟨taken first rest count, rest.drop count⟩ := by
  simp only [ofLines, isCount, Nat.not_lt.mpr enough, if_false]
  rfl

theorem filter_map_trim (lines : List (List Char)) :
    ((lines.map Text.trim).filter fun line => !line.isEmpty) =
      (lines.filter isSolid).map Text.trim :=
  List.filter_map

section Read

variable {draft : Draft} {rules : List (Nat × List Char)}
  (newline : ∀ line ∈ first :: rest, '\n' ∉ line)
include newline

/-- The lines of the text that is taken are those counted, up to trimming. -/
theorem map_trim_lines_taken (count : Nat) : (Text.lines (taken first rest count)).map Text.trim =
    Text.trim first :: (rest.take count).map Text.trim := by
  rw [taken, Text.map_trim_lines_flatMap, List.map_cons, Text.trim_trim]
  intro line inside
  rcases List.mem_cons.mp inside with rfl | counted
  · exact fun found => newline first List.mem_cons_self ((Text.trim_infix first).mem found)
  · exact newline line (List.mem_cons_of_mem _ (List.mem_of_mem_take counted))

variable (nonempty : Text.trim first ≠ [])
include nonempty

/-- Behind the count the solid ones of the counted lines are read. -/
theorem exists_numberedLines_taken (count : Nat) :
    ∃ number counted, Grammar.numberedLines (taken first rest count) =
        (number, Text.trim first) :: counted ∧
      counted.map Prod.snd = ((rest.take count).filter isSolid).map Text.trim := by
  obtain ⟨number, counted, isText, areCounted⟩ :=
    Grammar.exists_numberedLines_eq_cons (map_trim_lines_taken newline count) nonempty
  exact ⟨number, counted, isText, areCounted.trans (filter_map_trim _)⟩

variable (digits : (Text.trim first).all Char.isDigit = true)
  (isCount : Text.Decimal.readDigits 0 (Text.trim first) = .ok count)
  (enough : count ≤ rest.length)
  (contents : rules.map Prod.snd = (rest.filter isSolid).map Text.trim)
  (areRead : Grammar.readRules { conventions } (rules.take count) = .ok draft)
include digits isCount enough contents areRead

/-- When no counted line is blank, the counted lines hold the rules that are read. -/
theorem readDraft_of_solid (solid : ∀ line ∈ rest.take count, isSolid line = true) :
    Grammar.readDraft conventions (taken first rest count) = .ok draft := by
  obtain ⟨_, counted, isText, areCounted⟩ := exists_numberedLines_taken newline nonempty count
  have whole : (rest.take count).filter isSolid = rest.take count := List.filter_eq_self.mpr solid
  have asMany : counted.length = count := by
    rw [← List.length_map Prod.snd, areCounted, whole, List.length_map, List.length_take_of_le enough]
  have same : (rest.take count).filter isSolid = (rest.filter isSolid).take count := by
    refine (Text.filter_take_prefix isSolid count rest).eq_of_length_le ?_
    rw [whole, List.length_take_of_le enough]
    exact List.length_take_le _ _
  refine (Grammar.readDraft_eq_ok_iff_of_count isText digits).mpr ⟨count, isCount, asMany.ge, ?_⟩
  rw [List.take_of_length_le asMany.le]
  refine (Grammar.readRules_congr ?_).mpr areRead
  rw [areCounted, same, List.map_take, List.map_take, contents]

/-- When a counted line is blank, rules are missing from the counted lines. -/
theorem readDraft_of_blank (blank : ∃ line ∈ rest.take count, isSolid line = false) :
    Grammar.readDraft conventions (taken first rest count) =
      .error ((Grammar.LineFault.missingRules count
        ((rest.take count).filter isSolid).length).onLine (count + 1)) := by
  obtain ⟨_, counted, isText, areCounted⟩ := exists_numberedLines_taken newline nonempty count
  have asMany : counted.length = ((rest.take count).filter isSolid).length := by
    rw [← List.length_map Prod.snd, areCounted, List.length_map]
  have fewer : counted.length < count := by
    obtain ⟨line, inside, isBlank⟩ := blank
    rw [asMany]
    refine Nat.lt_of_lt_of_le (List.length_filter_lt_length_iff_exists.mpr ⟨line, inside, ?_⟩)
      (List.length_take_le _ _)
    simp [isBlank]
  -- The solid lines counted are the first of the rules, and those can be read.
  have isPrefix : counted.map Prod.snd <+: (rules.take count).map Prod.snd := by
    rw [areCounted, List.map_take, contents, ← List.map_take]
    exact (Text.filter_take_prefix isSolid count rest).map Text.trim
  obtain ⟨found, isFound⟩ := Grammar.exists_readRules_of_prefix areRead isPrefix
  have asManyLines := congrArg List.length (map_trim_lines_taken newline count)
  rw [List.length_map, List.length_cons, List.length_map, List.length_take_of_le enough]
    at asManyLines
  rw [Grammar.readDraft_of_missing isText digits isCount isFound fewer, asMany, asManyLines]

end Read

/--
Let a whole text be read as a grammar behind a count.  The count line and the lines it counts are
taken from the lines of the text.  They are read as the same grammar, and the lines left over are
those behind the rules, exactly when no counted line is blank.  Otherwise rules are missing.
-/
theorem ofLines_agrees {text : String} (isText : Text.lines text.toList = first :: rest)
    (nonempty : Text.trim first ≠ []) (digits : (Text.trim first).all Char.isDigit = true)
    (ok : Grammar.read conventions text = .ok grammar) :
    ∃ count counted, Text.Decimal.read (Text.trim first) = .ok count ∧
      ofLines (first :: rest) = .ok counted ∧ counted.unread = rest.drop count ∧
      (Grammar.read conventions (String.ofList counted.text) = .ok grammar ↔
        ∀ line ∈ rest.take count, isSolid line = true) ∧
      (counted.unread = behindSolid count rest ↔
        ∀ line ∈ rest.take count, isSolid line = true) ∧
      ((∃ line ∈ rest.take count, isSolid line = false) →
        Grammar.read conventions (String.ofList counted.text) =
          .error ((Grammar.LineFault.missingRules count
            ((rest.take count).filter isSolid).length).onLine (count + 1))) := by
  obtain ⟨draft, isRead, built⟩ := Grammar.read_eq_ok_iff.mp ok
  have trimmed : (Text.lines text.toList).map Text.trim = Text.trim first :: rest.map Text.trim := by
    rw [isText, List.map_cons]
  obtain ⟨_, rules, isNumbered, contents⟩ := Grammar.exists_numberedLines_eq_cons trimmed nonempty
  rw [filter_map_trim] at contents
  obtain ⟨count, isCount, enoughRules, areRead⟩ :=
    (Grammar.readDraft_eq_ok_iff_of_count isNumbered digits).mp isRead
  rw [← List.length_map Prod.snd, contents, List.length_map] at enoughRules
  have enough : count ≤ rest.length := Nat.le_trans enoughRules (List.length_filter_le _ _)
  have newline : ∀ line ∈ first :: rest, '\n' ∉ line := fun line inside =>
    Text.newline_not_mem_of_mem_lines (isText ▸ inside)
  have isNumber := (Text.Decimal.read_eq_readDigits nonempty digits).trans isCount
  have refused := readDraft_of_blank newline nonempty digits isCount enough contents areRead
  refine ⟨count, _, isNumber, ofLines_eq_ok isNumber enough, rfl, ⟨fun same => ?_, fun solid => ?_⟩,
    Text.drop_eq_behindSolid_iff enoughRules, fun blank => ?_⟩
  · intro line inside
    by_contra blank
    rw [Grammar.read, String.toList_ofList,
      refused ⟨line, inside, Bool.eq_false_iff.mpr blank⟩] at same
    cases same
  · refine Grammar.read_eq_ok_iff.mpr ⟨draft, ?_, built⟩
    rw [String.toList_ofList]
    exact readDraft_of_solid newline nonempty digits isCount enough contents areRead solid
  · rw [Grammar.read, String.toList_ofList, refused blank]

def oneWord : Grammar :=
  .ofRules {} [⟨"S", [⟨[.nonterminal "A"]⟩]⟩, ⟨"A", [⟨[.terminal "a"]⟩]⟩]

/-- The lines of a counted text, with a line of input behind the grammar. -/
theorem ofLines_agrees_oneWord : ∃ counted,
    ofLines (Text.lines " 2\nS -> A\r\nA -> a\nab\n".toList) = .ok counted ∧
      counted.unread = [['a', 'b']] ∧
      Grammar.read {} (String.ofList counted.text) = .ok oneWord := by
  have isText : Text.lines " 2\nS -> A\r\nA -> a\nab\n".toList =
      " 2".toList :: ["S -> A".toList, "A -> a".toList, "ab".toList] := by decide +kernel
  have isRead : Grammar.read {} " 2\nS -> A\r\nA -> a\nab\n" = .ok oneWord := by decide +kernel
  have isTwo : Text.Decimal.read (Text.trim " 2".toList) = .ok 2 := rfl
  obtain ⟨count, counted, isCount, isCounted, unread, same, _⟩ :=
    ofLines_agrees isText (List.cons_ne_nil _ _) rfl isRead
  obtain rfl := Except.ok.inj (isTwo.symm.trans isCount)
  exact ⟨counted, isText ▸ isCounted, unread, same.mpr (by decide +kernel)⟩

/-- A blank line between rules is counted as one of them, so the lines are not read as the text is. -/
theorem blankLine_is_counted :
    ¬ ∀ (conventions : Conventions) (text : String) (grammar : Grammar) (first : List Char)
      (rest : List (List Char)), Text.lines text.toList = first :: rest → Text.trim first ≠ [] →
        (Text.trim first).all Char.isDigit = true → Grammar.read conventions text = .ok grammar →
        ∃ count counted, Text.Decimal.read (Text.trim first) = .ok count ∧
          ofLines (first :: rest) = .ok counted ∧
          Grammar.read conventions (String.ofList counted.text) = .ok grammar ∧
          counted.unread = behindSolid count rest := by
  intro agree
  have isText : Text.lines "2\nS -> A\n\nA -> a\n".toList =
      "2".toList :: ["S -> A".toList, [], "A -> a".toList] := by decide +kernel
  have isRead : Grammar.read {} "2\nS -> A\n\nA -> a\n" = .ok oneWord := by decide +kernel
  have counts : ofLines ["2".toList, "S -> A".toList, [], "A -> a".toList] =
      .ok ⟨"2\nS -> A\n\n".toList, ["A -> a".toList]⟩ := by decide +kernel
  obtain ⟨_, _, _, isCounted, isReadAgain, _⟩ :=
    agree {} _ oneWord _ _ isText (List.cons_ne_nil _ _) rfl isRead
  obtain rfl := Except.ok.inj (isCounted.symm.trans counts)
  exact absurd isReadAgain (by decide +kernel)

end CommandLine.CountedText

end Lookahead
