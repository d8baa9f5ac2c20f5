import Lookahead.Proofs.LL1.Deciding
import Lookahead.Proofs.SLR1.Deciding

/-!
# Tables are never at fault

A table without conflicts never asks for what is not there.  Shift-reduce tables
do not, since the stack spells a word in every configuration.  A predictive table
does not, whatever sets fill it: the end marker stays under the stack, and a cell
only holds productions of the grammar.
-/

namespace Lookahead

/-- No configuration that a run reaches finds the tables at fault. -/
def Faultless {Config : Type} (step : Config → Step Config ParseResult) (config : Config) : Prop :=
  ∀ last, Machine.Reaches step config last → ∀ violation,
    step last ≠ .halt (.error (.violated violation))

/-- A run that finds no fault decides whether the input is accepted. -/
theorem Faultless.verdict_ne_none {Config : Type} {step : Config → Step Config ParseResult}
    {config : Config} {result : ParseResult} (faultless : Faultless step config)
    (halts : Machine.Halts step config result) : result.verdict ≠ none := by
  obtain ⟨last, reached, stopped⟩ := halts.exists_last
  cases result with
  | ok => exact Option.some_ne_none true
  | error error =>
      cases error with
      | rejected => exact Option.some_ne_none false
      | violated violation => exact absurd stopped (faultless last reached violation)

namespace LL1

/-- The end marker lies under all other symbols of the stack. -/
def Config.Founded (config : Config) : Prop := ∃ above, config.stack = above ++ [.endMarker]

namespace Table

variable {table : Table} {config next : Config}

/-- A step that finds a fault has an empty stack, or a cell whose production is missing. -/
theorem of_step_eq_violated {violation : Violation}
    (stopped : table.step config = .halt (.error (.violated violation))) :
    config.stack = [] ∨ ∃ name index, table.get? name config.lookahead = some index ∧
      table.grammar.production? name index = none := by
  unfold step at stopped
  split at stopped
  · rename_i isNil
    exact .inl isNil
  · rename_i name rest _
    split at stopped
    · exact absurd stopped (by simp)
    · rename_i index cell
      split at stopped
      · rename_i missing
        exact .inr ⟨name, index, cell, missing⟩
      · exact absurd stopped (by simp)
  · exact absurd stopped (by simp)
  · split at stopped
    · split at stopped
      · split at stopped
        · exact absurd stopped (by simp)
        · exact absurd stopped (by simp)
      · exact absurd stopped (by simp)
    · exact absurd stopped (by simp)

/-- A step that goes on leaves what is below the top symbol where it is. -/
theorem exists_stack_of_next {top : Symbol} {rest unread : List Symbol} {position : Nat}
    (moved : table.step ⟨top :: rest, unread, position⟩ = .next next) :
    top ≠ .endMarker ∧ ∃ above, next.stack = above ++ rest := by
  cases top with
  | nonterminal name =>
      refine ⟨Symbol.noConfusion, ?_⟩
      simp only [step] at moved
      split at moved
      · exact absurd moved (by simp)
      · split at moved
        · exact absurd moved (by simp)
        · rename_i production _
          exact ⟨production.body, (congrArg Config.stack (Step.next.inj moved)).symm⟩
  | epsilon =>
      exact ⟨Symbol.noConfusion, [], (congrArg Config.stack (Step.next.inj moved)).symm⟩
  | terminal name =>
      have solid : table.Stays (unread.headD .endMarker) (.terminal name) := trivial
      obtain ⟨_, more, _, isNext⟩ := exists_read_of_stays solid moved
      exact ⟨Symbol.noConfusion, [], congrArg Config.stack isNext⟩
  | endMarker =>
      simp only [step, reduceIte] at moved
      split at moved
      · split at moved
        · exact absurd moved (by simp)
        · exact absurd moved (by simp)
      · exact absurd moved (by simp)

theorem founded_of_next (founded : config.Founded) (moved : table.step config = .next next) :
    next.Founded := by
  obtain ⟨stack, unread, position⟩ := config
  obtain ⟨above, isStack⟩ := founded
  simp only at isStack
  subst isStack
  cases above with
  | nil => exact absurd rfl (exists_stack_of_next moved).1
  | cons top rest =>
      obtain ⟨_, onTop, isNext⟩ := exists_stack_of_next moved
      exact ⟨onTop ++ rest, isNext.trans (List.append_assoc onTop rest _).symm⟩

/-- A predictive table without conflicts is not at fault, whatever sets it is made of. -/
theorem faultless {grammar : Grammar} {first : FirstSets} {follow : FollowSets}
    (ok : build grammar first follow = .ok table) (input : List Symbol) :
    Faultless table.step (table.initial input) := by
  intro last reached violation stopped
  have founded : last.Founded := reached.invariant (fun _ _ => founded_of_next)
    ⟨[.nonterminal table.grammar.start], rfl⟩
  rcases of_step_eq_violated stopped with isNil | ⟨name, index, cell, missing⟩
  · obtain ⟨above, isStack⟩ := founded
    exact absurd (isStack.symm.trans isNil) (by simp)
  · obtain ⟨production, found, _⟩ := (get?_eq_some_iff ok name last.lookahead index).mp cell
    rw [grammar_of_build ok] at missing
    exact absurd (missing.symm.trans found) (by simp)

end Table

end LL1

/-- Shift-reduce tables without conflicts are not at fault. -/
theorem SLR1.Tables.Fits.faultless {tables : SLR1.Tables} {grammar : Grammar}
    (fits : tables.Fits grammar) (input : List Symbol) :
    Faultless tables.step (SLR1.Tables.initial input) := by
  intro last reached violation stopped
  obtain ⟨read, word, hasRead⟩ := fits.exists_hasRead (SLR1.Tables.hasRead_initial grammar input) reached
  obtain ⟨stack, unread, position⟩ := last
  cases fits.turn hasRead.spells unread position with
  | shift taken => cases stopped.symm.trans taken
  | reduce _ _ _ taken => cases stopped.symm.trans taken
  | reject _ taken => cases stopped.symm.trans taken
  | accept _ _ taken =>
      rw [taken] at stopped
      split at stopped
      · exact absurd stopped (by simp)
      · exact absurd stopped (by simp)

/--
No parse finds its tables at fault: neither with the shift-reduce tables of a grammar, nor with a
predictive table, even one made of the sets of other grammars.  So each answer decides.
-/
theorem tables_faultless :
    (∀ (grammar : Grammar) (tables : SLR1.Tables), grammar.Built → grammar.analysis.slr1 = .ok tables →
      ∀ input, Faultless tables.step (SLR1.Tables.initial input) ∧
        ∀ result, tables.parse? input = some result → result.verdict ≠ none) ∧
    ∀ (grammar : Grammar) (first : FirstSets) (follow : FollowSets) (table : LL1.Table),
      LL1.Table.build grammar first follow = .ok table →
        ∀ input, Faultless table.step (table.initial input) ∧
          ∀ result, table.parse? input = some result → result.verdict ≠ none := by
  refine ⟨fun grammar tables built ok input => ?_, fun grammar first follow table ok input => ?_⟩
  · have fits := SLR1.Tables.fits_of_built built ok
    refine ⟨fits.faultless input, fun result finished => ?_⟩
    exact (fits.faultless input).verdict_ne_none
      ((SLR1.Tables.parse?_eq_some_iff fits.action?_endMarker_ne_shift input result).mp finished)
  · have faultless := LL1.Table.faultless ok input
    refine ⟨faultless, fun result finished => ?_⟩
    exact faultless.verdict_ne_none ((LL1.Table.parse?_eq_some_iff table input result).mp finished)

theorem isOk_build_nestedPairs_of_circular :
    (LL1.Table.build nestedPairs SLR1.Tables.circular.firstSets SLR1.Tables.circular.follow).isOk =
      true := by
  decide +kernel

theorem tables_faultless_nestedPairs :
    (∃ tables, nestedPairs.analysis.slr1 = .ok tables ∧
      Faultless tables.step (SLR1.Tables.initial [.terminal "a", .terminal "b"]) ∧
        ∀ result, tables.parse? [.terminal "a", .terminal "b"] = some result →
          result.verdict ≠ none) ∧
    ∃ table, LL1.Table.build nestedPairs SLR1.Tables.circular.firstSets
          SLR1.Tables.circular.follow = .ok table ∧
        Faultless table.step (table.initial [.terminal "a", .terminal "b"]) ∧
          ∀ result, table.parse? [.terminal "a", .terminal "b"] = some result →
            result.verdict ≠ none := by
  obtain ⟨tables, slr1⟩ := exists_eq_ok_of_isOk SLR1.Tables.isSLR1_nestedPairs
  obtain ⟨table, ll1⟩ := exists_eq_ok_of_isOk isOk_build_nestedPairs_of_circular
  exact ⟨⟨tables, slr1, tables_faultless.1 nestedPairs tables built_nestedPairs slr1 _⟩,
    ⟨table, ll1, tables_faultless.2 nestedPairs _ _ table ll1 _⟩⟩

end Lookahead
