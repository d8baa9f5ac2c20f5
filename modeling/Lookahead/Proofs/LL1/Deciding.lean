import Lookahead.Analysis
import Lookahead.Proofs.Grammar.Built
import Lookahead.Proofs.LL1.Reading
import Lookahead.Proofs.LL1.StepBound

/-!
# The predictive parser decides its language

For every grammar whose predictive table has no conflicts, left-recursive or
unproductive as it may be, each parse stops and accepts the derived words only.
-/

namespace Lookahead.LL1.Table

variable {table : Table} {grammar : Grammar}

theorem fits_of_built (built : grammar.Built) (ok : grammar.analysis.ll1 = .ok table) :
    table.Fits grammar :=
  ⟨built.wellFormed, ok⟩

/-- Every parse gives an answer within the step bound, and the answer is right. -/
theorem exists_answer (fits : table.Fits grammar) (input : List Symbol) :
    ∃ result, table.parse? input = some result ∧ grammar.Answers (endTerminated input) result := by
  obtain ⟨result, halts⟩ := fits.exists_halts _ (endTerminated input) 0
  exact ⟨result, (parse?_eq_some_iff table input result).mpr halts, fits.answers halts⟩

/-- A parse accepts exactly the inputs that the grammar accepts. -/
theorem Fits.parse?_ok_iff (fits : table.Fits grammar) (input : List Symbol) :
    table.parse? input = some (.ok ()) ↔ grammar.Accepts (endTerminated input) := by
  obtain ⟨result, finished, answers⟩ := exists_answer fits input
  rw [finished, Option.some.injEq, answers.ok_iff]

/-- A parse stops, and accepts exactly the words of terminals that the grammar derives. -/
theorem parse?_decides (built : grammar.Built) (ok : grammar.analysis.ll1 = .ok table)
    {input word : List Symbol} (ends : endTerminated input = word ++ [.endMarker]) :
    ∃ result, table.parse? input = some result ∧
      (result = .ok () ↔
        Terminals word ∧ grammar.Derives [.nonterminal grammar.start] word) := by
  obtain ⟨result, finished, answers⟩ := exists_answer (fits_of_built built ok) input
  refine ⟨result, finished, ?_⟩
  rw [answers.ok_iff]
  exact Grammar.accepts_iff built.wellFormed ends

theorem isLL1_nestedPairs : nestedPairs.analysis.isLL1 = true := by
  decide +kernel

theorem parse?_decides_nestedPairs : ∃ table, nestedPairs.analysis.ll1 = .ok table ∧
    ∃ result, table.parse? [.terminal "a", .terminal "b"] = some result ∧
      (result = .ok () ↔ Terminals [.terminal "a", .terminal "b"] ∧
        nestedPairs.Derives [.nonterminal "S"] [.terminal "a", .terminal "b"]) := by
  obtain ⟨table, ok⟩ := exists_eq_ok_of_isOk isLL1_nestedPairs
  exact ⟨table, ok, parse?_decides built_nestedPairs ok rfl⟩

end Lookahead.LL1.Table
