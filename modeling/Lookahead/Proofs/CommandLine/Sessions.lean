import Lookahead.CommandLine.Program
import Lookahead.Proofs.CommandLine.Scripts
import Lookahead.Proofs.Parse.Faultless
import Mathlib.Logic.ExistsUnique

/-!
# Sessions of a dialogue

Where both parsers exist, a dialogue prints a prompt, and for each session of its lines
the verdicts on the inputs and a prompt, as long as every parse stops.  A parse that never
stops leaves the dialogue without the prompt that it owes.
-/

namespace Lookahead.CommandLine

variable {parsers : Parsers} {kind : ParserKind} {line : List Char}

/-! ## What a session comes to -/

def answersTo (parsers : Parsers) (kind : ParserKind) (inputs : List (List Char)) : List String :=
  inputs.map fun line => answer ((parsers.parse? kind (inputOf line)).any Except.isOk)

namespace Session

def Answered (parsers : Parsers) (session : Session) : Prop :=
  ∀ line ∈ session.inputs, parsers.parse? session.kind (inputOf line) ≠ none

/-- What is printed for a session: the answers, and a prompt behind them. -/
def printed (parsers : Parsers) (session : Session) : List String :=
  answersTo parsers session.kind session.inputs ++ [promptLine]

end Session

/-- What is printed before the first parse, in the order of the inputs, that never stops. -/
def Standstill (parsers : Parsers) (sessions : List Session) (printed : List String) : Prop :=
  ∃ before session after judged line more, sessions = before ++ session :: after ∧
    (∀ earlier ∈ before, earlier.Answered parsers) ∧ session.inputs = judged ++ line :: more ∧
    (∀ earlier ∈ judged, parsers.parse? session.kind (inputOf earlier) ≠ none) ∧
    parsers.parse? session.kind (inputOf line) = none ∧
    printed = before.flatMap (Session.printed parsers) ++ answersTo parsers session.kind judged

theorem exists_standstill {sessions : List Session}
    (unanswered : ¬ ∀ session ∈ sessions, session.Answered parsers) :
    ∃ printed, Standstill parsers sessions printed := by
  rcases exists_first (Session.Answered parsers) sessions with
    all | ⟨before, session, after, isSessions, answered, fails⟩
  · exact absurd all unanswered
  · rcases exists_first (fun line => parsers.parse? session.kind (inputOf line) ≠ none)
        session.inputs with all | ⟨judged, line, more, splits, judges, endless⟩
    · exact absurd all fails
    · exact ⟨_, before, session, after, judged, line, more, isSessions, answered, splits, judges,
        Decidable.not_not.mp endless, rfl⟩

/-! ## What a dialogue does -/

def Transcript.behind (printed : List String) (transcript : Transcript) : Transcript :=
  { transcript with printed := printed ++ transcript.printed }

theorem Transcript.behind_behind (first second : List String) (transcript : Transcript) :
    (transcript.behind second).behind first = transcript.behind (first ++ second) := by
  simp only [Transcript.behind, List.append_assoc]

/-- Every parse that stops comes to a verdict. -/
def Parsers.Decisive (parsers : Parsers) : Prop :=
  ∀ kind input result, parsers.parse? kind input = some result → result.verdict ≠ none

theorem Parsers.Decisive.verdict? (decisive : parsers.Decisive)
    {input : List Char} (answered : parsers.parse? kind input ≠ none) :
    parsers.verdict? kind input = some ((parsers.parse? kind input).any Except.isOk) := by
  obtain ⟨result, found⟩ := Option.ne_none_iff_exists'.mp answered
  rw [Parsers.verdict?, found, Option.bind_some]
  match result, decisive kind input result found with
  | .ok (), _ => rfl
  | .error (.rejected _), _ => rfl
  | .error (.violated _), undecided => exact absurd rfl undecided

section Converse

variable {ignored inputs rest : List (List Char)} {again : Bool}

/-- A dialogue that still waits for a line does what it does with that line. -/
theorem converse_cons {stage : Stage} (notClosed : stage ≠ .closed) (notJudging : stage ≠ .judging) :
    converse parsers stage (line :: rest) =
      (converse parsers (feed parsers stage line).stage rest).behind
        (feed parsers stage line).printed := by
  cases stage with
  | choosing => rfl
  | testing => rfl
  | judging => exact absurd rfl notJudging
  | closed => exact absurd rfl notClosed

theorem converse_closed (lines : List (List Char)) :
    converse parsers .closed lines = ⟨[], lines, true⟩ := by
  rw [converse]

theorem converse_judging (lines : List (List Char)) :
    converse parsers .judging lines = ⟨[], lines, false⟩ := by
  rw [converse]

theorem feed_answered {accepted : Bool} (isInput : inputOf line ≠ [])
    (judged : parsers.verdict? kind (inputOf line) = some accepted) :
    feed parsers (.testing kind again) line = ⟨[answer accepted], .testing kind again⟩ := by
  simp only [feed, List.isEmpty_eq_false_iff.mpr isInput, judged, Bool.false_eq_true, if_false]

theorem feed_unanswered (isInput : inputOf line ≠ [])
    (endless : parsers.parse? kind (inputOf line) = none) :
    feed parsers (.testing kind again) line = ⟨[], .judging⟩ := by
  simp only [feed, List.isEmpty_eq_false_iff.mpr isInput, Parsers.verdict?, endless, Option.bind_none,
    Bool.false_eq_true, if_false]

theorem converse_ignored (nothing : ∀ line ∈ ignored, SaysNothing line) :
    converse parsers .choosing (ignored ++ rest) = converse parsers .choosing rest := by
  induction ignored with
  | nil => rfl
  | cons head others ih =>
      obtain ⟨here, later⟩ := List.forall_mem_cons.mp nothing
      rw [List.cons_append, converse_cons (by simp) (by simp)]
      simp only [feed, choice?_eq_none_iff.mpr here, ih later]
      rfl

theorem converse_choice (starts : Spells kind.letter line) :
    converse parsers .choosing (line :: rest) = converse parsers (.testing kind true) rest := by
  rw [converse_cons (by simp) (by simp)]
  simp only [feed, choice?_eq_test_iff.mpr starts]
  rfl

theorem converse_quit (quits : Spells 'Q' line) :
    converse parsers .choosing (line :: rest) = ⟨[], rest, true⟩ := by
  rw [converse_cons (by simp) (by simp)]
  simp only [feed, choice?_eq_quit_iff.mpr quits, converse_closed]
  rfl

theorem converse_blank (blank : inputOf line = []) :
    converse parsers (.testing kind true) (line :: rest) =
      (converse parsers .choosing rest).behind [promptLine] := by
  rw [converse_cons (by simp) (by simp)]
  simp only [feed, blank, List.isEmpty_nil, if_true, sessionEnd]

/-- Inputs are answered one after another, as long as their parses stop. -/
theorem converse_inputs (decisive : parsers.Decisive) (filled : ∀ line ∈ inputs, inputOf line ≠ [])
    (answered : ∀ line ∈ inputs, parsers.parse? kind (inputOf line) ≠ none) :
    converse parsers (.testing kind again) (inputs ++ rest) =
      (converse parsers (.testing kind again) rest).behind (answersTo parsers kind inputs) := by
  induction inputs with
  | nil => rfl
  | cons head others ih =>
      obtain ⟨isInput, areInputs⟩ := List.forall_mem_cons.mp filled
      obtain ⟨stops, stopLater⟩ := List.forall_mem_cons.mp answered
      rw [List.cons_append, converse_cons (by simp) (by simp),
        feed_answered isInput (decisive.verdict? stops), ih areInputs stopLater,
        Transcript.behind_behind]
      rfl

/-- A parse that never stops leaves nothing more to see. -/
theorem converse_unanswered (isInput : inputOf line ≠ [])
    (endless : parsers.parse? kind (inputOf line) = none) :
    converse parsers (.testing kind again) (line :: rest) = ⟨[], rest, false⟩ := by
  rw [converse_cons (by simp) (by simp), feed_unanswered isInput endless, converse_judging]
  rfl

end Converse

namespace Session

variable {session : Session} {rest : List (List Char)}

theorem Fits.converse_choosing (fits : session.Fits) (rest : List (List Char)) :
    converse parsers .choosing (session.lines ++ rest) =
      converse parsers (.testing session.kind true) (session.inputs ++ rest) := by
  rw [lines, List.append_assoc, List.cons_append, converse_ignored fits.ignored,
    converse_choice fits.choice]

/-- A session that is answered prints its answers and a prompt. -/
theorem Fits.converse_answered (fits : session.Fits) (decisive : parsers.Decisive)
    (answered : session.Answered parsers) (blank : inputOf line = []) :
    converse parsers .choosing (session.lines ++ line :: rest) =
      (converse parsers .choosing rest).behind (session.printed parsers) := by
  rw [fits.converse_choosing, converse_inputs decisive fits.inputs answered, converse_blank blank,
    Transcript.behind_behind, printed]

/-- The end of the lines ends a session like an empty line. -/
theorem Fits.converse_last (fits : session.Fits) (decisive : parsers.Decisive)
    (answered : session.Answered parsers) :
    converse parsers .choosing session.lines = ⟨session.printed parsers, [], true⟩ := by
  rw [← List.append_nil session.lines, fits.converse_choosing,
    converse_inputs decisive fits.inputs answered]
  rfl

/-- A session stands still at the first input whose parse never stops. -/
theorem Fits.converse_stuck (fits : session.Fits) (decisive : parsers.Decisive)
    {judged more : List (List Char)} (splits : session.inputs = judged ++ line :: more)
    (answered : ∀ earlier ∈ judged, parsers.parse? session.kind (inputOf earlier) ≠ none)
    (endless : parsers.parse? session.kind (inputOf line) = none) (rest : List (List Char)) :
    ∃ unread, converse parsers .choosing (session.lines ++ rest) =
      ⟨answersTo parsers session.kind judged, unread, false⟩ := by
  have filled := fits.inputs
  rw [splits] at filled
  obtain ⟨before, behind⟩ := List.forall_mem_append.mp filled
  refine ⟨more ++ rest, ?_⟩
  rw [fits.converse_choosing, splits, List.append_assoc, converse_inputs decisive before answered,
    List.cons_append, converse_unanswered (behind line List.mem_cons_self) endless]
  simp only [Transcript.behind, List.append_nil]

end Session

namespace Script

variable {script : Script}

/-- Where every parse stops, each session is answered and ends with a prompt. -/
theorem Fits.converse_answered (fits : script.Fits) (decisive : parsers.Decisive)
    (answered : ∀ session ∈ script.sessions, session.Answered parsers) :
    converse parsers .choosing script.lines =
      ⟨script.sessions.flatMap (Session.printed parsers), script.unread, true⟩ := by
  induction script with
  | asked ignored =>
      rw [lines, ← List.append_nil ignored, converse_ignored fits]
      rfl
  | quit ignored choice unread =>
      obtain ⟨nothing, quits⟩ := fits
      rw [lines, converse_ignored nothing, converse_quit quits]
      rfl
  | within session =>
      rw [lines, Session.Fits.converse_last fits decisive (answered session List.mem_cons_self),
        sessions, List.flatMap_singleton]
      rfl
  | ended session blank later ih =>
      obtain ⟨fits, isBlank, laterFits⟩ := fits
      obtain ⟨here, behind⟩ := List.forall_mem_cons.mp answered
      rw [lines, fits.converse_answered decisive here isBlank, ih laterFits behind]
      rfl

/-- At the first parse that never stops, the dialogue stands still. -/
theorem Fits.converse_standstill (fits : script.Fits) (decisive : parsers.Decisive)
    {printed : List String} (stands : Standstill parsers script.sessions printed) :
    ∃ unread, converse parsers .choosing script.lines = ⟨printed, unread, false⟩ := by
  obtain ⟨before, session, after, judged, line, more, isSessions, answered, splits, judges, endless,
    rfl⟩ := stands
  induction script generalizing before with
  | asked => exact absurd isSessions (by simp [sessions])
  | quit => exact absurd isSessions (by simp [sessions])
  | within only =>
      cases before with
      | nil =>
          obtain ⟨rfl, _⟩ := List.cons.inj isSessions
          have whole := Session.Fits.converse_stuck fits decisive splits judges endless []
          rw [List.append_nil] at whole
          exact whole
      | cons => exact absurd isSessions (by simp [sessions])
  | ended first blank later ih =>
      obtain ⟨firstFits, isBlank, laterFits⟩ := fits
      cases before with
      | nil =>
          obtain ⟨rfl, _⟩ := List.cons.inj isSessions
          exact firstFits.converse_stuck decisive splits judges endless (blank :: later.lines)
      | cons head others =>
          obtain ⟨rfl, isRest⟩ := List.cons.inj isSessions
          obtain ⟨here, behind⟩ := List.forall_mem_cons.mp answered
          obtain ⟨unread, onward⟩ := ih laterFits others isRest behind
          refine ⟨unread, ?_⟩
          rw [lines, firstFits.converse_answered decisive here isBlank, onward]
          simp only [Transcript.behind, List.flatMap_cons, List.append_assoc]

end Script

/-! ## Prompts -/

theorem count_promptLine_answersTo (parsers : Parsers) (kind : ParserKind)
    (inputs : List (List Char)) : (answersTo parsers kind inputs).count promptLine = 0 := by
  refine List.count_eq_zero.mpr fun isAnswer => ?_
  obtain ⟨line, _, same⟩ := List.mem_map.mp isAnswer
  generalize (parsers.parse? kind (inputOf line)).any Except.isOk = accepted at same
  cases accepted with
  | true => exact absurd same (by decide)
  | false => exact absurd same (by decide)

/-- One prompt is printed for each session. -/
theorem count_promptLine_sessions (parsers : Parsers) (sessions : List Session) :
    (sessions.flatMap (Session.printed parsers)).count promptLine = sessions.length := by
  induction sessions with
  | nil => rfl
  | cons session others ih =>
      rw [List.flatMap_cons, List.count_append, ih, Session.printed, List.count_append,
        count_promptLine_answersTo, List.count_singleton_self, List.length_cons]
      omega

/-! ## The two parsers of a grammar -/

section OfGrammar

variable {grammar : Grammar}

theorem eq_ok_of_toOption_eq_some {ε α : Type} {outcome : Except ε α} {value : α}
    (same : outcome.toOption = some value) : outcome = .ok value := by
  cases outcome with
  | error => exact absurd same (by simp [Except.toOption])
  | ok found => exact congrArg _ (Option.some.inj same)

theorem decisive_ofGrammar (built : grammar.Built) : (Parsers.ofGrammar grammar).Decisive := by
  intro kind input result answered
  cases kind with
  | ll1 =>
      obtain ⟨table, isTable, finished⟩ := Option.bind_eq_some_iff.mp answered
      have faultless := LL1.Table.faultless (eq_ok_of_toOption_eq_some isTable)
        (table.conventions.tokenize input)
      exact faultless.verdict_ne_none ((LL1.Table.parse?_eq_some_iff table _ result).mp finished)
  | slr1 =>
      obtain ⟨tables, areTables, finished⟩ := Option.bind_eq_some_iff.mp answered
      have fits := SLR1.Tables.fits_of_built built (eq_ok_of_toOption_eq_some areTables)
      exact (fits.faultless _).verdict_ne_none
        ((SLR1.Tables.parse?_eq_some_iff fits.action?_endMarker_ne_shift _ result).mp finished)

/-- Predictive parses stop, and so do all parses where all that stands in sequences begins. -/
theorem answered_ofGrammar (built : grammar.Built) (isLL1 : grammar.analysis.isLL1 = true)
    (isSLR1 : grammar.analysis.isSLR1 = true) {session : Session}
    (stops : session.kind = .ll1 ∨ ∀ name, grammar.Reachable name → grammar.Begins name) :
    session.Answered (.ofGrammar grammar) := by
  intro line _ endless
  cases isKind : session.kind with
  | ll1 =>
      obtain ⟨table, ll1⟩ := exists_eq_ok_of_isOk isLL1
      obtain ⟨result, finished, _⟩ := LL1.Table.exists_answer (LL1.Table.fits_of_built built ll1)
        (table.conventions.tokenize (inputOf line))
      rw [isKind, Parsers.parse?, Parsers.ofGrammar, ll1] at endless
      exact absurd (finished.symm.trans endless) (Option.some_ne_none result)
  | slr1 =>
      have begins := stops.resolve_left (by simp [isKind])
      obtain ⟨tables, slr1⟩ := exists_eq_ok_of_isOk isSLR1
      obtain ⟨result, finished, _⟩ := (SLR1.Tables.fits_of_built built slr1).exists_answer begins
        (tables.conventions.tokenize (inputOf line))
      rw [isKind, Parsers.parse?, Parsers.ofGrammar, slr1] at endless
      exact absurd (finished.symm.trans endless) (Option.some_ne_none result)

theorem dialogue_eq (isLL1 : grammar.analysis.isLL1 = true) (isSLR1 : grammar.analysis.isSLR1 = true)
    (lines : List (List Char)) :
    dialogue grammar none lines =
      (converse (.ofGrammar grammar) .choosing lines).behind [promptLine] := by
  obtain ⟨table, ll1⟩ := exists_eq_ok_of_isOk isLL1
  obtain ⟨tables, slr1⟩ := exists_eq_ok_of_isOk isSLR1
  have isOpening : opening (.ofGrammar grammar) none = ⟨[promptLine], .choosing⟩ := by
    simp only [opening, Parsers.ofGrammar, ll1, slr1, Except.toOption]
  simp only [dialogue, isOpening, Transcript.behind]

end OfGrammar

/--
The lines of a dialogue with both parsers are those of one script.  While the parses stop, a prompt
is printed for each session, after one yes or no for each of its inputs, and nothing behind a choice
to quit is read; predictive parses stop.  At the first parse that never stops, all ends.
-/
theorem dialogue_accounts {grammar : Grammar} (built : grammar.Built)
    (isLL1 : grammar.analysis.isLL1 = true) (isSLR1 : grammar.analysis.isSLR1 = true) :
    (∀ lines, ∃! script : Script, script.Fits ∧ script.lines = lines) ∧
      ∀ script : Script, script.Fits →
        ((∀ session ∈ script.sessions, session.Answered (.ofGrammar grammar)) →
          dialogue grammar none script.lines =
              ⟨promptLine :: script.sessions.flatMap (Session.printed (.ofGrammar grammar)),
                script.unread, true⟩ ∧
            (dialogue grammar none script.lines).printed.count promptLine =
              1 + script.sessions.length) ∧
        ((¬ ∀ session ∈ script.sessions, session.Answered (.ofGrammar grammar)) →
          ∃ printed unread, Standstill (.ofGrammar grammar) script.sessions printed ∧
            dialogue grammar none script.lines = ⟨promptLine :: printed, unread, false⟩) ∧
        ∀ session ∈ script.sessions,
          (session.kind = .ll1 ∨ ∀ name, grammar.Reachable name → grammar.Begins name) →
            session.Answered (.ofGrammar grammar) := by
  have decisive := decisive_ofGrammar built
  refine ⟨fun lines => ?_, fun script fits => ⟨fun answered => ?_, fun unanswered => ?_,
    fun session _ stops => answered_ofGrammar built isLL1 isSLR1 stops⟩⟩
  · obtain ⟨script, fits, isLines⟩ := exists_script lines
    exact ⟨script, ⟨fits, isLines⟩, fun other ⟨otherFits, same⟩ =>
      otherFits.unique fits (same.trans isLines.symm)⟩
  · have whole : dialogue grammar none script.lines =
        ⟨promptLine :: script.sessions.flatMap (Session.printed (.ofGrammar grammar)),
          script.unread, true⟩ := by
      rw [dialogue_eq isLL1 isSLR1, fits.converse_answered decisive answered]
      rfl
    refine ⟨whole, ?_⟩
    rw [whole, List.count_cons_self, count_promptLine_sessions, Nat.add_comm]
  · obtain ⟨printed, stands⟩ := exists_standstill unanswered
    obtain ⟨unread, onward⟩ := fits.converse_standstill decisive stands
    refine ⟨printed, unread, stands, ?_⟩
    rw [dialogue_eq isLL1 isSLR1, onward]
    rfl

/--
Two sessions and a choice to quit.  The first two lines say nothing, the blanks around a letter do
not count, and the choice to quit in a session is an input.
-/
def twoSessions : Script :=
  .ended ⟨[[], ['T', 'B']], [' ', 't'], .ll1, [['a', 'b'], ['Q']]⟩ []
    (.ended ⟨[], ['B', '\r'], .slr1, [['a', 'a', 'b', 'b', '\r']]⟩ ['\r'] (.quit [] ['q'] [['a']]))

theorem dialogue_accounts_nestedPairs :
    nestedPairs.Built ∧ nestedPairs.analysis.isLL1 = true ∧ nestedPairs.analysis.isSLR1 = true ∧
      twoSessions.Fits ∧ (∃! script : Script, script.Fits ∧ script.lines = twoSessions.lines) ∧
        dialogue nestedPairs none twoSessions.lines =
          ⟨[promptLine, "yes", "no", promptLine, "yes", promptLine], [['a']], true⟩ := by
  have fits : twoSessions.Fits := by
    refine ⟨⟨?_, ?_, ?_⟩, ?_, ⟨?_, ?_, ?_⟩, ?_, ⟨?_, ?_⟩⟩ <;> decide +kernel
  obtain ⟨reads, accounts⟩ := dialogue_accounts built_nestedPairs LL1.Table.isLL1_nestedPairs
    SLR1.Tables.isSLR1_nestedPairs
  obtain ⟨answers, _, stops⟩ := accounts twoSessions fits
  have begins : ∀ name, nestedPairs.Reachable name → nestedPairs.Begins name := fun name reachable =>
    (nestedPairs_productive name (reachable.mem_nonterminals built_nestedPairs.wellFormed)).begins
  have printed : twoSessions.sessions.flatMap (Session.printed (.ofGrammar nestedPairs)) =
      ["yes", "no", promptLine, "yes", promptLine] := by
    decide +kernel
  obtain ⟨whole, _⟩ := answers fun session known => stops session known (.inr begins)
  refine ⟨built_nestedPairs, LL1.Table.isLL1_nestedPairs, SLR1.Tables.isSLR1_nestedPairs, fits,
    reads _, ?_⟩
  rw [whole, printed]
  rfl

/--
A grammar with a nonterminal that derives nothing, behind one that derives only the empty word.
What follows the latter elsewhere asks for it again and again.
-/
def bottomless : Grammar :=
  .ofRules {}
    [⟨"S", [⟨[.nonterminal "A"]⟩, ⟨[.terminal "y", .nonterminal "B", .terminal "x"]⟩]⟩,
    ⟨"A", [⟨[.nonterminal "B", .nonterminal "A"]⟩]⟩,
    ⟨"B", [⟨[.nonterminal "C", .nonterminal "C"]⟩]⟩,
    ⟨"C", [⟨[.nonterminal "D", .nonterminal "D"]⟩]⟩,
    ⟨"D", [⟨[.nonterminal "E", .nonterminal "E"]⟩]⟩,
    ⟨"E", [⟨[]⟩]⟩]

theorem built_bottomless : bottomless.Built :=
  .build (.add "E" [[]]
    (.add "D" [[.nonterminal "E", .nonterminal "E"]]
    (.add "C" [[.nonterminal "D", .nonterminal "D"]]
    (.add "B" [[.nonterminal "C", .nonterminal "C"]]
    (.add "A" [[.nonterminal "B", .nonterminal "A"]]
    (.add "S" [[.nonterminal "A"], [.terminal "y", .nonterminal "B", .terminal "x"]]
      (.empty {}))))))) rfl

theorem isLL1_bottomless : bottomless.analysis.isLL1 = true := by
  decide +kernel

theorem isSLR1_bottomless : bottomless.analysis.isSLR1 = true := by
  decide +kernel

theorem bottomless_comes_back :
    (bottomless.analysis.slr1.toOption.map fun tables =>
      (tables.conventions.tokenize ['x'], tables.falls? (.terminal "x") 15 [0],
        tables.falls? (.terminal "x") 15 [3])) =
      some ([.terminal "x"], some [3, 0], some [3, 3]) := by
  decide +kernel

/-- The shift-reduce parse of `x` reduces for ever. -/
theorem parse?_bottomless : (Parsers.ofGrammar bottomless).parse? .slr1 ['x'] = none := by
  obtain ⟨tables, slr1⟩ := exists_eq_ok_of_isOk isSLR1_bottomless
  have found := bottomless_comes_back
  simp only [slr1, Except.toOption, Option.map_some, Option.some.injEq, Prod.mk.injEq] at found
  obtain ⟨isInput, begins, again⟩ := found
  have endless : tables.Endless (.terminal "x") [0] :=
    ⟨15, [3], [0], [3], 14, .of_falls? begins, .of_falls? again⟩
  have fits := SLR1.Tables.fits_of_built built_bottomless slr1
  rw [Parsers.parse?, Parsers.ofGrammar, slr1]
  simp only [Except.toOption, Option.bind_some, SLR1.Tables.parseText?, isInput]
  refine Option.eq_none_iff_forall_ne_some.mpr fun result finished => ?_
  exact endless.forever.not_halts result
    ((SLR1.Tables.parse?_eq_some_iff fits.action?_endMarker_ne_shift _ result).mp finished)

/-- Where the parse of the first input never stops, neither an answer nor the prompt comes. -/
theorem dialogue_bottomless :
    bottomless.Built ∧ bottomless.analysis.isLL1 = true ∧ bottomless.analysis.isSLR1 = true ∧
      Script.Fits (.ended ⟨[], ['B'], .slr1, [['x']]⟩ [] (.asked [])) ∧
        dialogue bottomless none [['B'], ['x'], []] = ⟨[promptLine], [[]], false⟩ ∧
          (dialogue bottomless none [['B'], ['x'], []]).printed.count promptLine ≠ 1 + 1 := by
  have chooses : Spells (ParserKind.letter .slr1) ['B'] := by decide
  have printed : dialogue bottomless none [['B'], ['x'], []] = ⟨[promptLine], [[]], false⟩ := by
    rw [dialogue_eq isLL1_bottomless isSLR1_bottomless, converse_choice chooses,
      converse_unanswered (by decide) parse?_bottomless]
    rfl
  refine ⟨built_bottomless, isLL1_bottomless, isSLR1_bottomless,
    ⟨⟨by decide, chooses, by decide⟩, rfl, List.forall_mem_nil _⟩, printed, ?_⟩
  rw [printed]
  decide

end Lookahead.CommandLine
