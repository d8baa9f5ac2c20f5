import Lookahead.Proofs.LL1.Deciding
import Lookahead.Proofs.SLR1.Deciding

/-!
# Errors at the earliest symbol

A rejection stands at the end of the longest front of the input that can be
continued, and reports the symbol that comes next there.  Both parsers may expand
or reduce wrongly before, but on no wrong lookahead symbol do they read on.
-/

namespace Lookahead

open Grammar

def ParseResult.rejection? : ParseResult → Option Rejection
  | .error (.rejected rejection) => some rejection
  | _ => none

theorem ParseResult.rejection?_eq_some_iff {result : ParseResult} {rejection : Rejection} :
    result.rejection? = some rejection ↔ result = .error (.rejected rejection) := by
  match result with
  | .ok _ => simp [rejection?]
  | .error (.violated _) => simp [rejection?]
  | .error (.rejected other) => simp [rejection?]

/-- Tables that were found give the rejection that was found with them. -/
theorem exists_rejects {Report Tables : Type} {outcome : Except Report Tables}
    {parse? : Tables → Option ParseResult} {rejection : Rejection}
    (found : (outcome.toOption.bind parse?).bind ParseResult.rejection? = some rejection) :
    ∃ tables, outcome = .ok tables ∧ parse? tables = some (.error (.rejected rejection)) := by
  obtain ⟨result, parsed, isRejection⟩ := Option.bind_eq_some_iff.mp found
  obtain ⟨tables, isTables, answered⟩ := Option.bind_eq_some_iff.mp parsed
  refine ⟨tables, ?_, ParseResult.rejection?_eq_some_iff.mp isRejection ▸ answered⟩
  cases outcome with
  | error => cases isTables
  | ok other => rw [Option.some.inj isTables]

/-- Behind what has been read, the next symbol of an input is the first one unread. -/
theorem getElem?_eq_headD {input read unread : List Symbol} {position : Nat}
    (splits : input = read ++ unread) (here : position = read.length)
    (goesOn : ∃ head more, unread = head :: more) :
    input[position]? = some (unread.headD .endMarker) := by
  obtain ⟨head, more, isUnread⟩ := goesOn
  rw [splits, here, isUnread]
  simp

namespace LL1

theorem Config.HasRead.getElem?_position {grammar : Grammar} {input read : List Symbol}
    {config : Config} (hasRead : config.HasRead grammar input read) :
    input[config.position]? = some config.lookahead :=
  getElem?_eq_headD hasRead.input_eq hasRead.position_eq hasRead.exists_unread

namespace Table

variable {table : Table} {grammar : Grammar} {input : List Symbol} {rejection : Rejection}

/-- A step rejects the lookahead symbol where it is, or an input that does not end. -/
theorem rejection_of_step {config : Config}
    (stopped : table.step config = .halt (.error (.rejected rejection))) :
    (∃ expected, rejection = .mismatch expected config.lookahead config.position) ∨
      (∃ name, rejection = .noRule name config.lookahead config.position) ∨
      rejection = .trailingInput (config.position + 1) := by
  unfold step at stopped
  split at stopped
  · exact absurd stopped (by simp)
  · rename_i name rest _
    split at stopped
    · exact .inr (.inl ⟨name, by simpa [eq_comm] using stopped⟩)
    · split at stopped
      · exact absurd stopped (by simp)
      · exact absurd stopped (by simp)
  · exact absurd stopped (by simp)
  · rename_i expected rest _ _ _
    split at stopped
    · split at stopped
      · split at stopped
        · exact absurd stopped (by simp)
        · exact .inr (.inr (by simpa [eq_comm] using stopped))
      · exact absurd stopped (by simp)
    · exact .inl ⟨expected, by simpa [eq_comm] using stopped⟩

/--
A predictive parser rejects an input at the end of the longest front that can be continued, and
reports the symbol that comes next there unless the input goes on behind its end marker.
-/
theorem predictive_rejection_earliest (built : grammar.Built) (ok : grammar.analysis.ll1 = .ok table)
    (rejects : table.parse? input = some (.error (.rejected rejection))) :
    grammar.LongestViable (endTerminated input) rejection.position ∧
      ((∃ expected found, rejection = .mismatch expected found rejection.position ∧
          (endTerminated input)[rejection.position]? = some found) ∨
        (∃ name lookahead, rejection = .noRule name lookahead rejection.position ∧
          (endTerminated input)[rejection.position]? = some lookahead) ∨
        rejection = .trailingInput rejection.position) := by
  have fits := fits_of_built built ok
  have halts := (parse?_eq_some_iff table input _).mp rejects
  obtain ⟨longest, _⟩ := fits.answers halts
  refine ⟨longest, ?_⟩
  obtain ⟨last, reached, stopped⟩ := halts.exists_last
  obtain ⟨read, hasRead⟩ := fits.exists_hasRead (fits.hasRead_initial input) reached
  have next := hasRead.getElem?_position
  rcases rejection_of_step stopped with ⟨expected, same⟩ | ⟨name, same⟩ | same
  · subst same
    exact .inl ⟨expected, last.lookahead, rfl, next⟩
  · subst same
    exact .inr (.inl ⟨name, last.lookahead, rfl, next⟩)
  · subst same
    exact .inr (.inr rfl)

theorem rejects_nestedPairs :
    (nestedPairs.analysis.ll1.toOption.bind fun table =>
      table.parse? [.terminal "a", .endMarker, .terminal "b"]).bind ParseResult.rejection? =
        some (.mismatch (.terminal "b") .endMarker 1) := by
  decide +kernel

theorem predictive_rejection_earliest_nestedPairs :
    ∃ table, nestedPairs.analysis.ll1 = .ok table ∧
      table.parse? [.terminal "a", .endMarker, .terminal "b"] =
        some (.error (.rejected (.mismatch (.terminal "b") .endMarker 1))) ∧
      nestedPairs.LongestViable [.terminal "a", .endMarker, .terminal "b", .endMarker] 1 := by
  obtain ⟨table, ok, rejects⟩ := exists_rejects rejects_nestedPairs
  exact ⟨table, ok, rejects, (predictive_rejection_earliest built_nestedPairs ok rejects).1⟩

end Table

end LL1

namespace SLR1

theorem Config.HasRead.getElem?_position {grammar : Grammar} {input read word : List Symbol}
    {config : Config} (hasRead : config.HasRead grammar input read word) :
    input[config.position]? = some config.lookahead :=
  getElem?_eq_headD hasRead.input_eq hasRead.position_eq hasRead.exists_unread

namespace Tables

variable {tables : Tables} {grammar : Grammar} {input : List Symbol} {rejection : Rejection}

/-- A reduction rejects nothing. -/
theorem reduce_ne_rejected (config : Config) (name : Name) (index : Nat) :
    tables.reduce config name index ≠ .halt (.error (.rejected rejection)) := by
  unfold reduce
  split
  · simp
  · split
    · simp
    · split
      · simp
      · simp

/-- A step rejects the lookahead symbol where it is, or an input that does not end. -/
theorem rejection_of_step {config : Config}
    (stopped : tables.step config = .halt (.error (.rejected rejection))) :
    (∃ state, rejection = .noAction state config.lookahead config.position) ∨
      rejection = .trailingInput (config.position + 1) := by
  unfold step at stopped
  split at stopped
  · exact absurd stopped (by simp)
  · rename_i state below _
    split at stopped
    · exact .inl ⟨state, by simpa [eq_comm] using stopped⟩
    · exact absurd stopped (by simp)
    · exact absurd stopped (reduce_ne_rejected _ _ _)
    · split at stopped
      · exact absurd stopped (by simp)
      · exact .inr (by simpa [eq_comm] using stopped)

/--
A shift-reduce parser rejects an input at the end of the longest front that can be continued, and
reports the symbol that comes next there unless the input goes on behind its end marker.
-/
theorem shiftReduce_rejection_earliest (built : grammar.Built) (ok : grammar.analysis.slr1 = .ok tables)
    (rejects : tables.parse? input = some (.error (.rejected rejection))) :
    grammar.LongestViable (endTerminated input) rejection.position ∧
      ((∃ state lookahead, rejection = .noAction state lookahead rejection.position ∧
          (endTerminated input)[rejection.position]? = some lookahead) ∨
        rejection = .trailingInput rejection.position) := by
  have fits := fits_of_built built ok
  have halts := (parse?_eq_some_iff fits.action?_endMarker_ne_shift input _).mp rejects
  obtain ⟨longest, _⟩ := fits.answers halts
  refine ⟨longest, ?_⟩
  obtain ⟨last, reached, stopped⟩ := halts.exists_last
  obtain ⟨read, word, hasRead⟩ := fits.exists_hasRead (hasRead_initial grammar input) reached
  rcases rejection_of_step stopped with ⟨state, same⟩ | same
  · subst same
    exact .inl ⟨state, last.lookahead, rfl, hasRead.getElem?_position⟩
  · subst same
    exact .inr rfl

theorem rejects_nestedPairs :
    (nestedPairs.analysis.slr1.toOption.bind fun tables =>
      tables.parse? [.terminal "a", .endMarker, .terminal "b"]).bind ParseResult.rejection? =
        some (.noAction 3 .endMarker 1) := by
  decide +kernel

theorem shiftReduce_rejection_earliest_nestedPairs :
    ∃ tables, nestedPairs.analysis.slr1 = .ok tables ∧
      tables.parse? [.terminal "a", .endMarker, .terminal "b"] =
        some (.error (.rejected (.noAction 3 .endMarker 1))) ∧
      nestedPairs.LongestViable [.terminal "a", .endMarker, .terminal "b", .endMarker] 1 := by
  obtain ⟨tables, ok, rejects⟩ := exists_rejects rejects_nestedPairs
  exact ⟨tables, ok, rejects, (shiftReduce_rejection_earliest built_nestedPairs ok rejects).1⟩

end Tables

end SLR1

end Lookahead
