import Lookahead.Proofs.LL1.Deciding
import Lookahead.Proofs.SLR1.Deciding

/-!
# The two parsers agree

Where both kinds of tables have no conflicts and all nonterminals are productive,
both parsers answer every input alike: they accept the same words, and reject
all else at the same place.
-/

namespace Lookahead

variable {grammar : Grammar} {table : LL1.Table} {tables : SLR1.Tables}

/-- Both parsers accept an input, or both reject it at the same position. -/
theorem parsers_agree (built : grammar.Built)
    (productive : ∀ name ∈ grammar.nonterminals, grammar.Productive name)
    (ll1 : grammar.analysis.ll1 = .ok table) (slr1 : grammar.analysis.slr1 = .ok tables)
    (input : List Symbol) :
    table.parse? input = some (.ok ()) ∧ tables.parse? input = some (.ok ()) ∨
      ∃ left right : Rejection, table.parse? input = some (.error (.rejected left)) ∧
        tables.parse? input = some (.error (.rejected right)) ∧ left.position = right.position := by
  have begins : ∀ name, grammar.Reachable name → grammar.Begins name := fun name reachable =>
    (productive name (reachable.mem_nonterminals built.wellFormed)).begins
  obtain ⟨first, firstFinished, firstAnswers⟩ :=
    LL1.Table.exists_answer (LL1.Table.fits_of_built built ll1) input
  obtain ⟨second, secondFinished, secondAnswers⟩ :=
    (SLR1.Tables.fits_of_built built slr1).exists_answer begins input
  rcases firstAnswers.agree secondAnswers with ⟨accepts, alsoAccepts⟩ |
    ⟨left, right, rejects, alsoRejects, same⟩
  · subst accepts alsoAccepts
    exact .inl ⟨firstFinished, secondFinished⟩
  · subst rejects alsoRejects
    exact .inr ⟨left, right, firstFinished, secondFinished, same⟩

theorem parsers_agree_nestedPairs : ∃ table tables, nestedPairs.analysis.ll1 = .ok table ∧
    nestedPairs.analysis.slr1 = .ok tables ∧
      (table.parse? [.terminal "b"] = some (.ok ()) ∧ tables.parse? [.terminal "b"] = some (.ok ()) ∨
        ∃ left right : Rejection, table.parse? [.terminal "b"] = some (.error (.rejected left)) ∧
          tables.parse? [.terminal "b"] = some (.error (.rejected right)) ∧
            left.position = right.position) := by
  obtain ⟨table, ll1⟩ := exists_eq_ok_of_isOk LL1.Table.isLL1_nestedPairs
  obtain ⟨tables, slr1⟩ := exists_eq_ok_of_isOk SLR1.Tables.isSLR1_nestedPairs
  exact ⟨table, tables, ll1, slr1,
    parsers_agree built_nestedPairs nestedPairs_productive ll1 slr1 [.terminal "b"]⟩

end Lookahead
