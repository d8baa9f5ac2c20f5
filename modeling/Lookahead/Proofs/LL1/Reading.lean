import Lookahead.Proofs.LL1.Following
import Lookahead.Proofs.Parse.Answers

/-!
# What a predictive parse has read

In every configuration of a parse the symbols read and the symbols on the stack
are derived together from the start symbol and the end marker.  So the parser
accepts the words of the grammar, always stops, and stops at the first symbol
that no word has there.
-/

namespace Lookahead.LL1

open Grammar

/-- Part of an input has been read: with the stack behind it, it is derived from the start. -/
structure Config.HasRead (grammar : Grammar) (input read : List Symbol) (config : Config) :
    Prop where
  input_eq : input = read ++ config.unread
  input_ends : input.getLast? = some .endMarker
  position_eq : config.position = read.length
  terminals : Terminals read
  chain : grammar.Derives [.nonterminal grammar.start, .endMarker] (read ++ config.stack)

namespace Config.HasRead

variable {grammar : Grammar} {input read : List Symbol} {config : Config}

theorem viable (hasRead : config.HasRead grammar input read) : grammar.Viable read :=
  ⟨hasRead.terminals.isInput, config.stack, hasRead.chain⟩

/-- The end marker has not been read, so it is still ahead. -/
theorem exists_unread (hasRead : config.HasRead grammar input read) :
    ∃ head more, config.unread = head :: more :=
  hasRead.terminals.exists_cons (hasRead.input_eq ▸ hasRead.input_ends)

/-- The stack holds known symbols above the one end marker. -/
theorem exists_stack (wellFormed : grammar.WellFormed) (hasRead : config.HasRead grammar input read) :
    ∃ above, config.stack = above ++ [.endMarker] ∧ (∀ symbol ∈ above, grammar.Known symbol) ∧
      grammar.Derives [.nonterminal grammar.start] (read ++ above) := by
  obtain ⟨front, same, chain⟩ := hasRead.chain.exists_front
  have known := Known.of_derives wellFormed chain (Known.start wellFormed)
  rcases List.append_eq_append_iff.mp same with ⟨above, isFront, isStack⟩ | ⟨rest, isRead, isEnd⟩
  · subst isFront
    exact ⟨above, isStack, fun symbol inside => known symbol (List.mem_append_right _ inside), chain⟩
  · cases rest with
    | nil =>
        rw [List.append_nil] at isRead
        exact ⟨[], isEnd.symm, List.forall_mem_nil _, by simpa [isRead]⟩
    | cons head others =>
        obtain ⟨isHead, _⟩ := List.cons.inj isEnd
        have inRead : Symbol.endMarker ∈ read := by rw [isRead, isHead]; simp
        exact absurd inRead hasRead.terminals.endMarker_not_mem

theorem read_terminal {name : Name} {rest more : List Symbol} {position : Nat}
    (hasRead : Config.HasRead grammar input read
      ⟨.terminal name :: rest, .terminal name :: more, position⟩) :
    Config.HasRead grammar input (read ++ [.terminal name]) ⟨rest, more, position + 1⟩ where
  input_eq := by
    rw [List.append_assoc]
    exact hasRead.input_eq
  input_ends := hasRead.input_ends
  position_eq := by
    rw [List.length_append, ← hasRead.position_eq]
    rfl
  terminals := hasRead.terminals.append_singleton name
  chain := by
    rw [List.append_assoc]
    exact hasRead.chain

theorem expand {name : Name} {index : Nat} {production : Production} {rest unread : List Symbol}
    {position : Nat} (hasRead : Config.HasRead grammar input read
      ⟨.nonterminal name :: rest, unread, position⟩)
    (found : grammar.production? name index = some production) :
    Config.HasRead grammar input read ⟨production.body ++ rest, unread, position⟩ where
  input_eq := hasRead.input_eq
  input_ends := hasRead.input_ends
  position_eq := hasRead.position_eq
  terminals := hasRead.terminals
  chain := hasRead.chain.step (.expand read rest found)

end Config.HasRead

namespace Table.Fits

variable {table : Table} {grammar : Grammar} {input read : List Symbol} {config : Config}

theorem hasRead_initial (fits : table.Fits grammar) (input : List Symbol) :
    (table.initial input).HasRead grammar (endTerminated input) [] where
  input_eq := rfl
  input_ends := getLast?_endTerminated input
  position_eq := rfl
  terminals := List.forall_mem_nil _
  chain := by
    rw [List.nil_append, Table.initial, grammar_of_build fits.ok]
    exact .refl _

/--
All that one step of a parse does: it goes on, rejects the lookahead symbol, or finds the end
marker that the stack ends in.
-/
theorem step_cases (fits : table.Fits grammar) (hasRead : config.HasRead grammar input read) :
    (∃ next nextRead, table.step config = .next next ∧ next.HasRead grammar input nextRead ∧
        config.position ≤ next.position) ∨
      (∃ rejection, table.step config = .halt (.error (.rejected rejection)) ∧
        rejection.position = config.position) ∨
      ∃ more, config.stack = [.endMarker] ∧ config.unread = .endMarker :: more ∧
        table.step config = .halt
          (if more = [] then .ok () else .error (.rejected (.trailingInput (config.position + 1)))) := by
  obtain ⟨head, more, isUnread⟩ := hasRead.exists_unread
  obtain ⟨above, isStack, known, _⟩ := hasRead.exists_stack fits.wellFormed
  obtain ⟨stack, unread, position⟩ := config
  simp only at isStack isUnread
  subst isStack isUnread
  cases above with
  | nil =>
      by_cases same : head = .endMarker
      · subst same
        exact .inr (.inr ⟨more, rfl, rfl, step_endMarker [] more position⟩)
      · exact .inr (.inl ⟨_, step_refuse rfl [] (head :: more) position same, rfl⟩)
  | cons top rest =>
      rcases known top List.mem_cons_self with ⟨name, isTerminal⟩ | ⟨name, isNonterminal, _⟩
      · subst isTerminal
        by_cases same : head = .terminal name
        · subst same
          refine .inl ⟨_, read ++ [.terminal name], step_match name _ more position, ?_⟩
          exact ⟨hasRead.read_terminal, Nat.le_succ position⟩
        · exact .inr (.inl ⟨_, step_refuse rfl _ (head :: more) position same, rfl⟩)
      · subst isNonterminal
        cases cell : table.get? name head with
        | none => exact .inr (.inl ⟨_, step_noRule (head :: more) cell _ position, rfl⟩)
        | some index =>
            obtain ⟨production, found, _⟩ := (fits.get?_eq_some_iff name head index).mp cell
            have inTable : table.grammar.production? name index = some production := by
              rw [grammar_of_build fits.ok]
              exact found
            exact .inl ⟨_, read, step_expand (head :: more) cell inTable _ position,
              hasRead.expand found, Nat.le_refl position⟩

theorem exists_hasRead (fits : table.Fits grammar) {last : Config}
    (hasRead : config.HasRead grammar input read) (reached : Machine.Reaches table.step config last) :
    ∃ lastRead, last.HasRead grammar input lastRead := by
  refine reached.invariant (P := fun config => ∃ read, config.HasRead grammar input read) ?_
    ⟨read, hasRead⟩
  rintro middle next ⟨middleRead, middleHasRead⟩ moved
  rcases fits.step_cases middleHasRead with
    ⟨other, nextRead, taken, nextHasRead, _⟩ | ⟨_, taken, _⟩ | ⟨_, _, _, taken⟩
  · have same := Step.next.inj (moved.symm.trans taken)
    exact ⟨nextRead, same ▸ nextHasRead⟩
  · cases moved.symm.trans taken
  · cases moved.symm.trans taken

/-- A parse rejects no earlier than where it is. -/
theorem position_le_of_rejected (fits : table.Fits grammar) {rejection : Rejection}
    (hasRead : config.HasRead grammar input read)
    (halts : Machine.Halts table.step config (.error (.rejected rejection))) :
    config.position ≤ rejection.position := by
  generalize isResult : (Except.error (ParseError.rejected rejection) : ParseResult) = result at halts
  induction halts generalizing read with
  | halt last =>
      subst isResult
      rcases fits.step_cases hasRead with
        ⟨_, _, taken, _⟩ | ⟨other, taken, here⟩ | ⟨more, _, _, taken⟩
      · cases last.symm.trans taken
      · have same := Step.halt.inj (last.symm.trans taken)
        simp only [Except.error.injEq, ParseError.rejected.injEq] at same
        rw [same]
        exact Nat.le_of_eq here.symm
      · have same := Step.halt.inj (last.symm.trans taken)
        split at same
        · exact absurd same (by simp)
        · simp only [Except.error.injEq, ParseError.rejected.injEq] at same
          rw [same]
          exact Nat.le_succ _
  | next first _ ih =>
      rcases fits.step_cases hasRead with
        ⟨next, nextRead, taken, nextHasRead, onward⟩ | ⟨_, taken, _⟩ | ⟨_, _, _, taken⟩
      · have same := Step.next.inj (first.symm.trans taken)
        exact Nat.le_trans onward (same ▸ ih (same ▸ nextHasRead) isResult)
      · cases first.symm.trans taken
      · cases first.symm.trans taken

/-- The parser goes on while what it would have read begins a word of the grammar. -/
theorem reads_on (fits : table.Fits grammar) {head : Symbol} {more : List Symbol}
    (splits : endTerminated input = read ++ head :: more) (viable : grammar.Viable (read ++ [head])) :
    (∃ stack, Machine.Reaches table.step (table.initial input) ⟨stack, more, read.length + 1⟩) ∨
      head = .endMarker ∧ Machine.Halts table.step (table.initial input)
        (if more = [] then .ok ()
          else .error (.rejected (.trailingInput (read.length + 1)))) := by
  have followed := fits.closed.followed_start
  have begins : table.initial input =
      ⟨[.nonterminal grammar.start] ++ [.endMarker], read ++ head :: more, 0⟩ := by
    rw [Table.initial, grammar_of_build fits.ok, splits]
    rfl
  rw [begins]
  rcases viable.of_append_singleton with leads | ⟨isEnd, yields⟩
  · obtain ⟨stack, moved⟩ := fits.exists_reaches_of_leads leads (by simp)
      (followed.mono (fun _ never => never.elim)) [.endMarker] more 0
    rw [List.append_assoc, List.length_append, Nat.zero_add] at moved
    exact .inl ⟨stack, moved⟩
  · subst isEnd
    have moved := fits.reaches_of_yields yields (by simp) (.endMarker :: more) followed
      [.endMarker] 0
    rw [Nat.zero_add] at moved
    exact .inr ⟨rfl, moved.halts (.halt (step_endMarker [] more read.length))⟩

/-- Whatever the parser answers is right. -/
theorem answers (fits : table.Fits grammar) {result : ParseResult}
    (halts : Machine.Halts table.step (table.initial input) result) :
    grammar.Answers (endTerminated input) result := by
  obtain ⟨last, reached, stopped⟩ := halts.exists_last
  obtain ⟨read, hasRead⟩ := fits.exists_hasRead (fits.hasRead_initial input) reached
  rcases fits.step_cases hasRead with
    ⟨_, _, taken, _⟩ | ⟨rejection, taken, here⟩ | ⟨more, isStack, isUnread, taken⟩
  · cases stopped.symm.trans taken
  · have same := Step.halt.inj (stopped.symm.trans taken)
    subst same
    obtain ⟨head, more, isUnread⟩ := hasRead.exists_unread
    have splits : endTerminated input = read ++ head :: more := isUnread ▸ hasRead.input_eq
    rw [hasRead.position_eq] at here
    refine .rejected splits hasRead.viable ?_ here
    intro viable
    -- The run would have come past the lookahead symbol, and rejected no earlier.
    rcases fits.reads_on splits viable with ⟨stack, moved⟩ | ⟨_, other⟩
    · obtain ⟨_, movedHasRead⟩ := fits.exists_hasRead (fits.hasRead_initial input) moved
      have onward := fits.position_le_of_rejected movedHasRead (halts.of_reaches moved)
      rw [here] at onward
      exact absurd onward (Nat.not_succ_le_self _)
    · have same := halts.unique other
      split at same
      · exact absurd same (by simp)
      · simp only [Except.error.injEq, ParseError.rejected.injEq] at same
        rw [same] at here
        exact absurd here (Nat.succ_ne_self _)
  · have same := Step.halt.inj (stopped.symm.trans taken)
    have chain := hasRead.chain
    rw [isStack] at chain
    obtain ⟨front, sameFront, frontChain⟩ := chain.exists_front
    obtain ⟨isFront, _⟩ := List.append_inj' sameFront rfl
    subst isFront
    have yields := (terminals_and_derives_iff_yields fits.wellFormed read).mp
      ⟨hasRead.terminals, frontChain⟩
    have splits : endTerminated input = read ++ .endMarker :: more := isUnread ▸ hasRead.input_eq
    split at same
    · rename_i nothing
      subst same nothing
      exact ⟨read, splits, yields⟩
    · rename_i goesOn
      subst same
      exact .trailing fits.wellFormed splits goesOn yields (congrArg (· + 1) hasRead.position_eq)

/--
The lookahead symbol that chose a body is found in it, or the body vanishes and what was below the
nonterminal is on top again.
-/
theorem reads_or_clears (fits : table.Fits grammar) {name : Name} {index : Nat}
    {unread : List Symbol} (cell : table.get? name (unread.headD .endMarker) = some index)
    (rest : List Symbol) (position : Nat) :
    (∃ head more stack, unread = head :: more ∧ Machine.Reaches table.step
        ⟨.nonterminal name :: rest, unread, position⟩ ⟨stack, more, position + 1⟩) ∨
      Machine.Reaches table.step
        ⟨.nonterminal name :: rest, unread, position⟩ ⟨rest, unread, position⟩ := by
  obtain ⟨production, found, opens⟩ := (fits.get?_eq_some_iff _ _ _).mp cell
  have solid := fits.wellFormed.epsilon_not_mem_body found
  have noEnd := fits.wellFormed.endMarker_not_mem_body found
  have expanded := fits.reaches_expand found rest unread position opens
  have sound := firstSound_firstComputation fits.wellFormed
  rcases Grammar.leads_or_yields_of_opens sound solid opens with leads | ⟨yields, comes⟩
  · cases unread with
    | nil =>
        -- The input has ended, and a body cannot begin with the end marker.
        have terminals := leads.terminals fits.wellFormed (Known.of_body fits.wellFormed found)
        exact absurd List.mem_cons_self terminals.endMarker_not_mem
    | cons head more =>
        obtain ⟨stack, moved⟩ := fits.exists_reaches_of_leads leads noEnd
          (fits.closed.followed_body_alone found) rest more position
        exact .inl ⟨head, more, stack, rfl, expanded.trans moved⟩
  · have moved := fits.reaches_of_yields yields noEnd unread
      (fits.closed.followed_body_by found comes) rest position
    exact .inr (expanded.trans moved)

/-- A parse stops if it stops after every read, for it reads, stops or clears the top symbol. -/
theorem exists_halts_of_tail (fits : table.Fits grammar) {unread : List Symbol}
    (later : ∀ head more, unread = head :: more → ∀ stack position,
      ∃ result, Machine.Halts table.step ⟨stack, more, position⟩ result)
    (stack : List Symbol) (position : Nat) :
    ∃ result, Machine.Halts table.step ⟨stack, unread, position⟩ result := by
  induction stack with
  | nil => exact ⟨_, .halt rfl⟩
  | cons top rest ih =>
      obtain ⟨result, restHalts⟩ := ih
      cases top with
      | epsilon => exact ⟨result, .next rfl restHalts⟩
      | endMarker =>
          cases unread with
          | nil => exact ⟨_, .halt rfl⟩
          | cons head more =>
              by_cases same : head = .endMarker
              · subst same
                exact ⟨_, .halt (step_endMarker rest more position)⟩
              · exact ⟨_, .halt (step_refuse rfl rest (head :: more) position same)⟩
      | terminal name =>
          cases unread with
          | nil => exact ⟨_, .halt rfl⟩
          | cons head more =>
              by_cases same : head = .terminal name
              · subst same
                obtain ⟨result, moreHalts⟩ := later _ more rfl rest (position + 1)
                exact ⟨result, .next (step_match name rest more position) moreHalts⟩
              · exact ⟨_, .halt (step_refuse rfl rest (head :: more) position same)⟩
      | nonterminal name =>
          cases cell : table.get? name (unread.headD .endMarker) with
          | none => exact ⟨_, .halt (step_noRule unread cell rest position)⟩
          | some index =>
              rcases fits.reads_or_clears cell rest position with
                ⟨head, more, stack, isUnread, moved⟩ | moved
              · obtain ⟨result, moreHalts⟩ := later head more isUnread stack (position + 1)
                exact ⟨result, moved.halts moreHalts⟩
              · exact ⟨result, moved.halts restHalts⟩

/-- Every parse stops, from whatever configuration it starts. -/
theorem exists_halts (fits : table.Fits grammar) (stack unread : List Symbol) (position : Nat) :
    ∃ result, Machine.Halts table.step ⟨stack, unread, position⟩ result := by
  induction unread generalizing stack position with
  | nil => exact fits.exists_halts_of_tail (fun _ _ same => absurd same (by simp)) stack position
  | cons head more ih =>
      refine fits.exists_halts_of_tail ?_ stack position
      intro first others same
      obtain ⟨_, sameMore⟩ := List.cons.inj same
      exact sameMore ▸ ih

end Table.Fits
end Lookahead.LL1
