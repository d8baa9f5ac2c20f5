import Lookahead.Proofs.Grammar.Built
import Lookahead.Proofs.SLR1.Halting

/-!
# What the shift-reduce parser decides

For every grammar whose shift-reduce tables have no conflicts, the parser accepts
exactly the derived words.  On other inputs it may reduce for ever: that happens
where a part of the stack comes up again above itself, and never when all that
stands in derived sequences begins.
-/

namespace Lookahead.SLR1.Tables

variable {tables : Tables} {grammar : Grammar}

theorem fits_of_built (built : grammar.Built) (ok : grammar.analysis.slr1 = .ok tables) :
    tables.Fits grammar :=
  ⟨built.wellFormed, ok⟩

theorem Fits.halts_ok_iff (fits : tables.Fits grammar) (input : List Symbol) :
    Machine.Halts tables.step (initial input) (.ok ()) ↔ grammar.Accepts (endTerminated input) :=
  ⟨fits.answers, fits.halts_of_accepts⟩

/-- A parse accepts exactly the inputs that the grammar accepts. -/
theorem Fits.parse?_ok_iff (fits : tables.Fits grammar) (input : List Symbol) :
    tables.parse? input = some (.ok ()) ↔ grammar.Accepts (endTerminated input) :=
  (parse?_eq_some_iff fits.action?_endMarker_ne_shift input (.ok ())).trans (fits.halts_ok_iff input)

/-- Every answer within the step bound is right, where all that stands in sequences begins. -/
theorem Fits.exists_answer (fits : tables.Fits grammar)
    (begins : ∀ name, grammar.Reachable name → grammar.Begins name) (input : List Symbol) :
    ∃ result, tables.parse? input = some result ∧ grammar.Answers (endTerminated input) result := by
  obtain ⟨result, halts⟩ := fits.exists_halts begins input
  exact ⟨result, (parse?_eq_some_iff fits.action?_endMarker_ne_shift input result).mpr halts,
    fits.answers halts⟩

/-- The parser accepts exactly the words of terminals that the grammar derives. -/
theorem parse?_eq_ok_iff (built : grammar.Built) (ok : grammar.analysis.slr1 = .ok tables)
    {input word : List Symbol} (ends : endTerminated input = word ++ [.endMarker]) :
    (Machine.Halts tables.step (initial input) (.ok ()) ↔
        Terminals word ∧ grammar.Derives [.nonterminal grammar.start] word) ∧
      (tables.parse? input = some (.ok ()) ↔
        Terminals word ∧ grammar.Derives [.nonterminal grammar.start] word) := by
  have fits := fits_of_built built ok
  rw [parse?_eq_some_iff fits.action?_endMarker_ne_shift, fits.halts_ok_iff,
    Grammar.accepts_iff built.wellFormed ends]
  exact ⟨Iff.rfl, Iff.rfl⟩

theorem isSLR1_nestedPairs : nestedPairs.analysis.isSLR1 = true := by
  decide +kernel

theorem parse?_eq_ok_iff_nestedPairs : ∃ tables, nestedPairs.analysis.slr1 = .ok tables ∧
    (Machine.Halts tables.step (initial [.terminal "a", .terminal "b"]) (.ok ()) ↔
        Terminals [.terminal "a", .terminal "b"] ∧
          nestedPairs.Derives [.nonterminal "S"] [.terminal "a", .terminal "b"]) ∧
      (tables.parse? [.terminal "a", .terminal "b"] = some (.ok ()) ↔
        Terminals [.terminal "a", .terminal "b"] ∧
          nestedPairs.Derives [.nonterminal "S"] [.terminal "a", .terminal "b"]) := by
  obtain ⟨tables, ok⟩ := exists_eq_ok_of_isOk isSLR1_nestedPairs
  exact ⟨tables, ok, parse?_eq_ok_iff built_nestedPairs ok rfl⟩

/--
A parse fails to stop exactly when part of a stack that it reaches comes up again above itself.
No parse does so when every reachable nonterminal begins.
-/
theorem endless_or_stops (built : grammar.Built) (ok : grammar.analysis.slr1 = .ok tables) :
    (∀ input, (¬ ∃ result, Machine.Halts tables.step (initial input) result) ↔
        ∃ last, Machine.Reaches tables.step (initial input) last ∧
          tables.Endless last.lookahead last.stack) ∧
      ((∀ name, grammar.Reachable name → grammar.Begins name) →
        ∀ input, ∃ result, tables.parse? input = some result) := by
  have fits := fits_of_built built ok
  refine ⟨fun input => not_halts_iff fits.action?_endMarker_ne_shift (initial input), ?_⟩
  intro begins input
  obtain ⟨result, finished, _⟩ := fits.exists_answer begins input
  exact ⟨result, finished⟩

theorem endless_or_stops_nestedPairs : ∃ tables, nestedPairs.analysis.slr1 = .ok tables ∧
    (∀ input, (¬ ∃ result, Machine.Halts tables.step (initial input) result) ↔
        ∃ last, Machine.Reaches tables.step (initial input) last ∧
          tables.Endless last.lookahead last.stack) ∧
      ∀ input, ∃ result, tables.parse? input = some result := by
  obtain ⟨tables, ok⟩ := exists_eq_ok_of_isOk isSLR1_nestedPairs
  obtain ⟨recurs, stops⟩ := endless_or_stops built_nestedPairs ok
  refine ⟨tables, ok, recurs, stops fun name reachable => ?_⟩
  exact (nestedPairs_productive name (reachable.mem_nonterminals built_nestedPairs.wellFormed)).begins

/--
A grammar with a rule that reduces to itself, before a nonterminal that derives nothing.  The
symbol that follows the rule elsewhere asks for that reduction again and again.
-/
def circular : Grammar :=
  .ofRules {}
    [⟨"S", [⟨[.nonterminal "A", .nonterminal "U"]⟩,
      ⟨[.terminal "b", .terminal "d", .terminal "f", .terminal "g", .terminal "h", .terminal "i"]⟩]⟩,
    ⟨"U", [⟨[.nonterminal "U", .terminal "c"]⟩]⟩,
    ⟨"A", [⟨[.nonterminal "A"]⟩, ⟨[.terminal "a"]⟩]⟩,
    ⟨"V", [⟨[.nonterminal "A", .terminal "x"]⟩]⟩]

theorem built_circular : circular.Built :=
  .build (.add "V" [[.nonterminal "A", .terminal "x"]]
    (.add "A" [[.nonterminal "A"], [.terminal "a"]]
      (.add "U" [[.nonterminal "U", .terminal "c"]]
        (.add "S" [[.nonterminal "A", .nonterminal "U"],
          [.terminal "b", .terminal "d", .terminal "f", .terminal "g", .terminal "h", .terminal "i"]]
          (.empty {}))))) rfl

theorem circular_comes_back :
    (circular.analysis.slr1.toOption.bind fun tables =>
        Machine.after tables.step 2 (initial [.terminal "a", .terminal "x"])) =
          some ⟨[3, 0], [.terminal "x", .endMarker], 1⟩ ∧
      (circular.analysis.slr1.toOption.bind fun tables =>
        Machine.after tables.step 1 ⟨[3, 0], [.terminal "x", .endMarker], 1⟩) =
          some ⟨[3, 0], [.terminal "x", .endMarker], 1⟩ := by
  decide +kernel

/-- The tables of this grammar have no conflicts, but the parse of `ax` never stops. -/
theorem circular_never_stops : circular.Built ∧ ∃ tables, circular.analysis.slr1 = .ok tables ∧
    ∀ result, ¬ Machine.Halts tables.step (initial [.terminal "a", .terminal "x"]) result := by
  obtain ⟨begins, again⟩ := circular_comes_back
  refine ⟨built_circular, ?_⟩
  cases ok : circular.analysis.slr1 with
  | error report => simp [ok, Except.toOption] at begins
  | ok tables =>
      refine ⟨tables, rfl, fun result halts => ?_⟩
      simp only [ok, Except.toOption, Option.bind_some] at begins again
      have later := halts.of_reaches (Machine.reaches_of_after begins)
      exact Machine.not_halts_of_after again result later

end Lookahead.SLR1.Tables
