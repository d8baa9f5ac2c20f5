import Lookahead.Proofs.Parse.Answers
import Lookahead.Proofs.SLR1.Following

/-!
# What a shift-reduce parse has read

In every configuration of a parse the stack spells a word that derives what has
been read and begins a sequence derived from the start symbol.  So the parser
accepts words of the grammar only, and rejects at the first symbol that no word
has there.
-/

namespace Lookahead.SLR1

open Grammar

/-- Symbols are left over with which an item makes a sequence derived from the start symbol. -/
theorem exists_derives_of_valid {grammar : Grammar} (wellFormed : grammar.WellFormed)
    {word before rest : List Symbol} {name : Name} {index : Nat}
    (valid : LR0.Valid grammar.augmented.toGrammar word name index before rest) :
    ∃ tail, grammar.Derives [.nonterminal grammar.start] (word ++ (rest ++ tail)) := by
  obtain ⟨front, tail, splits, chain⟩ := valid.derives
  have expanded := wellFormed.derives_of_expand (wellFormed.derives_of_augmented chain) valid.production
  refine ⟨tail, ?_⟩
  rw [splits]
  simpa using expanded

/-- Part of an input has been read, and the stack spells a word that derives it. -/
structure Config.HasRead (grammar : Grammar) (input read word : List Symbol) (config : Config) :
    Prop where
  input_eq : input = read ++ config.unread
  input_ends : input.getLast? = some .endMarker
  position_eq : config.position = read.length
  terminals : Terminals read
  spells : Spells grammar word config.stack
  derives : grammar.Derives word read

namespace Config.HasRead

variable {grammar : Grammar} {input read word : List Symbol} {config : Config}

theorem viable (wellFormed : grammar.WellFormed)
    (hasRead : config.HasRead grammar input read word) : grammar.Viable read := by
  obtain ⟨_, _, _, rest, valid⟩ := hasRead.spells.exists_valid
  obtain ⟨tail, chain⟩ := exists_derives_of_valid wellFormed valid
  have onward := chain.trans (hasRead.derives.append (.refl (rest ++ tail)))
  refine ⟨hasRead.terminals.isInput, rest ++ tail ++ [.endMarker], ?_⟩
  simpa using onward.with_endMarker

/-- The end marker has not been read, so it is still ahead. -/
theorem exists_unread (hasRead : config.HasRead grammar input read word) :
    ∃ head more, config.unread = head :: more :=
  hasRead.terminals.exists_cons (hasRead.input_eq ▸ hasRead.input_ends)

end Config.HasRead

namespace Tables

variable {tables : Tables} {grammar : Grammar} {input read word : List Symbol} {config : Config}

theorem hasRead_initial (grammar : Grammar) (input : List Symbol) :
    (initial input).HasRead grammar (endTerminated input) [] [] where
  input_eq := rfl
  input_ends := getLast?_endTerminated input
  position_eq := rfl
  terminals := List.forall_mem_nil _
  spells := .nil
  derives := .refl []

namespace Fits

theorem hasRead_of_next (fits : tables.Fits grammar) {next : Config}
    (hasRead : config.HasRead grammar input read word) (moved : tables.step config = .next next) :
    ∃ nextRead nextWord, next.HasRead grammar input nextRead nextWord ∧
      config.position ≤ next.position := by
  obtain ⟨stack, unread, position⟩ := config
  cases fits.turn hasRead.spells unread position with
  | @shift _ more _ state name taken spells =>
      have same := Step.next.inj (moved.symm.trans taken)
      subst same
      refine ⟨read ++ [.terminal name], word ++ [.terminal name], ?_, Nat.le_succ position⟩
      refine ⟨?_, hasRead.input_ends, ?_, hasRead.terminals.append_singleton name, spells,
        hasRead.derives.append (.refl _)⟩
      · rw [List.append_assoc]
        exact hasRead.input_eq
      · rw [List.length_append, ← hasRead.position_eq]
        rfl
  | @reduce _ _ front body _ state index name found splits follows taken spells =>
      have same := Step.next.inj (moved.symm.trans taken)
      subst same
      refine ⟨read, front ++ [.nonterminal name], ?_, Nat.le_refl position⟩
      refine ⟨hasRead.input_eq, hasRead.input_ends, hasRead.position_eq, hasRead.terminals, spells, ?_⟩
      have expanded := Derives.append (.refl front) (Derives.of_production found)
      exact expanded.trans (splits ▸ hasRead.derives)
  | reject _ taken => cases moved.symm.trans taken
  | accept _ _ taken =>
      rw [taken] at moved
      split at moved
      · exact absurd moved (by simp)
      · exact absurd moved (by simp)

theorem exists_hasRead (fits : tables.Fits grammar) {last : Config}
    (hasRead : config.HasRead grammar input read word)
    (reached : Machine.Reaches tables.step config last) :
    ∃ lastRead lastWord, last.HasRead grammar input lastRead lastWord := by
  refine reached.invariant (P := fun config => ∃ read word, config.HasRead grammar input read word) ?_
    ⟨read, word, hasRead⟩
  rintro middle next ⟨_, _, middleHasRead⟩ moved
  obtain ⟨nextRead, nextWord, nextHasRead, _⟩ := fits.hasRead_of_next middleHasRead moved
  exact ⟨nextRead, nextWord, nextHasRead⟩

/-- A parse rejects no earlier than where it is. -/
theorem position_le_of_rejected (fits : tables.Fits grammar) {rejection : Rejection}
    (hasRead : config.HasRead grammar input read word)
    (halts : Machine.Halts tables.step config (.error (.rejected rejection))) :
    config.position ≤ rejection.position := by
  generalize isResult : (Except.error (ParseError.rejected rejection) : ParseResult) = result at halts
  induction halts generalizing read word with
  | @halt config _ last =>
      subst isResult
      obtain ⟨stack, unread, position⟩ := config
      cases fits.turn hasRead.spells unread position with
      | shift taken => cases last.symm.trans taken
      | reduce _ _ _ taken => cases last.symm.trans taken
      | reject _ taken =>
          have same := Step.halt.inj (last.symm.trans taken)
          simp only [Except.error.injEq, ParseError.rejected.injEq] at same
          rw [same]
          exact Nat.le_refl _
      | accept _ _ taken =>
          rw [taken] at last
          split at last
          · exact absurd (Step.halt.inj last) (by simp)
          · have same := Step.halt.inj last
            simp only [Except.error.injEq, ParseError.rejected.injEq] at same
            rw [← same]
            exact Nat.le_succ _
  | next first _ ih =>
      obtain ⟨nextRead, nextWord, next, onward⟩ := fits.hasRead_of_next hasRead first
      exact Nat.le_trans onward (ih next isResult)

/-- After the start symbol the end marker is accepted, if it is the last symbol of the input. -/
theorem accept (fits : tables.Fits grammar) {stack : List Nat}
    (spells : Spells grammar [.nonterminal grammar.start] stack) (more : List Symbol)
    (position : Nat) : tables.step ⟨stack, .endMarker :: more, position⟩ = .halt
      (if more = [] then .ok () else .error (.rejected (.trailingInput (position + 1)))) := by
  obtain ⟨number, below, isStack, stands⟩ := spells.exists_top
  have cell := (fits.action?_accept_iff stands .endMarker).mpr ⟨rfl, 0, _, (valid_start grammar).advance⟩
  rw [isStack, step_of_stands below (.endMarker :: more) position cell]
  cases more with
  | nil => rfl
  | cons head others => rfl

/-- The parser goes on while what it would have read begins a word of the grammar. -/
theorem reads_on (fits : tables.Fits grammar) {head : Symbol} {more : List Symbol}
    (splits : endTerminated input = read ++ head :: more) (viable : grammar.Viable (read ++ [head])) :
    (∃ stack, Machine.Reaches tables.step (initial input) ⟨stack, more, read.length + 1⟩) ∨
      head = .endMarker ∧ Machine.Halts tables.step (initial input)
        (if more = [] then .ok ()
          else .error (.rejected (.trailingInput (read.length + 1)))) := by
  have followed := fits.closed.followed_start
  have first := (valid_start grammar).append_nil
  have begins : initial input = ⟨[0], read ++ head :: more, 0⟩ := by
    rw [initial, splits]
  rw [begins]
  rcases viable.of_append_singleton with leads | ⟨isEnd, yields⟩
  · obtain ⟨stack, moved⟩ := fits.exists_reaches_of_leads leads .nil first
      (followed.mono fun _ never => never.elim) more 0
    rw [List.append_assoc, List.length_append, Nat.zero_add] at moved
    exact .inl ⟨stack, moved⟩
  · subst isEnd
    obtain ⟨stack, moved, spells⟩ := fits.exists_reaches_of_yields yields .nil first
      (.endMarker :: more) followed 0
    rw [Nat.zero_add] at moved
    exact .inr ⟨rfl, moved.halts (.halt (fits.accept spells more read.length))⟩

/-- Whatever the parser answers is right. -/
theorem answers (fits : tables.Fits grammar) {result : ParseResult}
    (halts : Machine.Halts tables.step (initial input) result) :
    grammar.Answers (endTerminated input) result := by
  obtain ⟨last, reached, stopped⟩ := halts.exists_last
  obtain ⟨read, word, hasRead⟩ := fits.exists_hasRead (hasRead_initial grammar input) reached
  obtain ⟨head, more, isUnread⟩ := hasRead.exists_unread
  have splits : endTerminated input = read ++ head :: more := isUnread ▸ hasRead.input_eq
  have here := hasRead.position_eq
  have turn := fits.turn hasRead.spells last.unread last.position
  obtain ⟨stack, unread, position⟩ := last
  simp only at here isUnread
  cases turn with
  | shift taken => cases stopped.symm.trans taken
  | reduce _ _ _ taken => cases stopped.symm.trans taken
  | reject state taken =>
      have same := Step.halt.inj (stopped.symm.trans taken)
      subst same
      refine .rejected splits (hasRead.viable fits.wellFormed) ?_ here
      intro viable
      -- The run would have come past the lookahead symbol, and rejected no earlier.
      rcases fits.reads_on splits viable with ⟨stack, moved⟩ | ⟨_, other⟩
      · obtain ⟨_, _, movedHasRead⟩ := fits.exists_hasRead (hasRead_initial grammar input) moved
        have onward := fits.position_le_of_rejected movedHasRead (halts.of_reaches moved)
        have before : read.length + 1 ≤ position := onward
        omega
      · have same := halts.unique other
        split at same
        · exact absurd same (by simp)
        · exact absurd same (by simp)
  | accept isStart isEnd taken =>
      rw [isUnread] at isEnd taken
      have isHead : head = .endMarker := isEnd
      have derives := hasRead.derives
      rw [isStart] at derives
      have yields := (terminals_and_derives_iff_yields fits.wellFormed read).mp
        ⟨hasRead.terminals, derives⟩
      subst isHead
      rw [isUnread, taken] at stopped
      cases more with
      | nil =>
          have same := Step.halt.inj stopped
          subst same
          exact ⟨read, splits, yields⟩
      | cons next others =>
          have same := Step.halt.inj stopped
          subst same
          exact .trailing fits.wellFormed splits (by simp) yields (congrArg (· + 1) here)

/-- A word of the grammar is accepted. -/
theorem halts_of_accepts (fits : tables.Fits grammar)
    (accepts : grammar.Accepts (endTerminated input)) :
    Machine.Halts tables.step (initial input) (.ok ()) := by
  have viable := accepts.viable
  obtain ⟨word, splits, _⟩ := accepts
  rw [splits] at viable
  rcases fits.reads_on splits viable with ⟨stack, moved⟩ | ⟨_, halts⟩
  · obtain ⟨_, _, hasRead⟩ := fits.exists_hasRead (hasRead_initial grammar input) moved
    obtain ⟨head, more, isUnread⟩ := hasRead.exists_unread
    exact absurd isUnread (by simp)
  · exact halts

end Fits

end Tables

end Lookahead.SLR1
