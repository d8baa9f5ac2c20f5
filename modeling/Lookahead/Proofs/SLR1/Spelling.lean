import Lookahead.Proofs.Grammar.Viable
import Lookahead.Proofs.SLR1.Cells

/-!
# Words spelled by stacks

The states on the stack are those that the fronts of a word lead to.  A shift
adds a symbol to the word, and a reduction replaces a body at its end by the
nonterminal; nothing that a step asks the tables for is missing.
-/

namespace Lookahead.SLR1

/-- A stack holds the numbers of the states that the fronts of a word lead to, the longest first. -/
inductive Spells (grammar : Grammar) : List Symbol → List Nat → Prop where
  | nil : Spells grammar [] [0]
  | push {word before rest : List Symbol} {stack : List Nat} {symbol : Symbol} {name : Name}
      {index number : Nat} (below : Spells grammar word stack)
      (valid : LR0.Valid grammar.augmented.toGrammar word name index before (symbol :: rest))
      (stands : Tables.Stands grammar (word ++ [symbol]) number) :
      Spells grammar (word ++ [symbol]) (number :: stack)

/-- The start item of the augmented grammar is valid at the beginning. -/
theorem valid_start (grammar : Grammar) :
    LR0.Valid grammar.augmented.toGrammar [] grammar.freshStart 0 [] [.nonterminal grammar.start] :=
  .start (Grammar.production?_freshStart grammar)

namespace Spells

variable {grammar : Grammar} {word : List Symbol} {stack : List Nat}

theorem exists_top (spells : Spells grammar word stack) :
    ∃ number below, stack = number :: below ∧ Tables.Stands grammar word number := by
  cases spells with
  | nil => exact ⟨0, [], rfl, LR0.getElem?_states_zero _⟩
  | push below _ stands => exact ⟨_, _, rfl, stands⟩

/-- Some item is valid after every word that is spelled. -/
theorem exists_valid (spells : Spells grammar word stack) :
    ∃ name index before rest,
      LR0.Valid grammar.augmented.toGrammar word name index before rest := by
  cases spells with
  | nil => exact ⟨_, _, _, _, valid_start grammar⟩
  | push _ valid _ => exact ⟨_, _, _, _, .advance valid⟩

/-- Below the states of the end of a word is a stack that spells the rest. -/
theorem drop {front back : List Symbol} (spells : Spells grammar (front ++ back) stack) :
    Spells grammar front (stack.drop back.length) := by
  generalize same : front ++ back = whole at spells
  induction spells generalizing back with
  | nil =>
      obtain ⟨isFront, isBack⟩ := List.append_eq_nil_iff.mp same
      subst isFront isBack
      exact .nil
  | @push word before rest stack symbol name index number below valid stands ih =>
      rcases List.eq_nil_or_concat back with isNil | ⟨shorter, last, isConcat⟩
      · subst isNil
        rw [List.append_nil] at same
        exact same ▸ .push below valid stands
      · subst isConcat
        rw [List.concat_eq_append, ← List.append_assoc] at same
        obtain ⟨isWord, _⟩ := List.append_inj' same rfl
        rw [List.concat_eq_append, List.length_append, List.length_singleton, List.drop_succ_cons]
        exact ih isWord

end Spells

namespace Tables

variable {tables : Tables} {grammar : Grammar} {word : List Symbol} {stack : List Nat}
  {unread : List Symbol} {position : Nat}

theorem step_of_stands {number : Nat} {action : Action} (below : List Nat) (unread : List Symbol)
    (position : Nat) (cell : tables.action? number (unread.headD .endMarker) = some action) :
    tables.step ⟨number :: below, unread, position⟩ =
      match action with
      | .shift next => .next ⟨next :: number :: below, unread.tail, position + 1⟩
      | .reduce name index => tables.reduce ⟨number :: below, unread, position⟩ name index
      | .accept =>
          if unread.length = 1 then .halt (.ok ())
          else .halt (.error (.rejected (.trailingInput (position + 1)))) := by
  simp only [step, Config.lookahead, cell]
  cases action with
  | shift => rfl
  | reduce => rfl
  | accept => rfl

inductive Turn (tables : Tables) (grammar : Grammar) (word : List Symbol) : Config → Prop where
  | shift {stack : List Nat} {more : List Symbol} {position next : Nat} {name : Name}
      (taken : tables.step ⟨stack, .terminal name :: more, position⟩ =
        .next ⟨next :: stack, more, position + 1⟩)
      (spells : Spells grammar (word ++ [.terminal name]) (next :: stack)) :
      Turn tables grammar word ⟨stack, .terminal name :: more, position⟩
  | reduce {stack : List Nat} {unread front body : List Symbol} {position next index : Nat}
      {name : Name} (found : grammar.production? name index = some ⟨body⟩)
      (splits : word = front ++ body)
      (follows : unread.headD .endMarker ∈ grammar.follow.get name)
      (taken : tables.step ⟨stack, unread, position⟩ =
        .next ⟨next :: stack.drop body.length, unread, position⟩)
      (spells : Spells grammar (front ++ [.nonterminal name]) (next :: stack.drop body.length)) :
      Turn tables grammar word ⟨stack, unread, position⟩
  | reject {stack : List Nat} {unread : List Symbol} {position : Nat} (state : Nat)
      (taken : tables.step ⟨stack, unread, position⟩ = .halt
        (.error (.rejected (.noAction state (unread.headD .endMarker) position)))) :
      Turn tables grammar word ⟨stack, unread, position⟩
  | accept {stack : List Nat} {unread : List Symbol} {position : Nat}
      (isStart : word = [.nonterminal grammar.start])
      (isEnd : unread.headD .endMarker = .endMarker)
      (taken : tables.step ⟨stack, unread, position⟩ =
        if unread.length = 1 then .halt (.ok ())
        else .halt (.error (.rejected (.trailingInput (position + 1))))) :
      Turn tables grammar word ⟨stack, unread, position⟩

namespace Fits

/-- The state that a word leads to shifts the terminal that an item has next. -/
theorem exists_shift (fits : tables.Fits grammar) {number : Nat} (stands : Stands grammar word number)
    {name other : Name} {index : Nat} {before rest : List Symbol}
    (valid : LR0.Valid grammar.augmented.toGrammar word name index before (.terminal other :: rest)) :
    ∃ next, tables.action? number (.terminal other) = some (.shift next) ∧
      Stands grammar (word ++ [.terminal other]) next := by
  obtain ⟨next, inside, nextStands⟩ := exists_transition stands valid
  exact ⟨next, (fits.action?_shift_iff stands (.terminal other) next).mpr
    ⟨fun name same => Symbol.noConfusion same, inside⟩, nextStands⟩

/-- The state that a word leads to reduces by the production whose body the word ends in. -/
theorem reduces (fits : tables.Fits grammar) {front body : List Symbol} {number : Nat}
    (stands : Stands grammar (front ++ body) number) {name : Name} {index : Nat}
    (known : name ≠ grammar.freshStart)
    (valid : LR0.Valid grammar.augmented.toGrammar front name index [] body) {lookahead : Symbol}
    (follows : lookahead ∈ grammar.follow.get name) :
    tables.action? number lookahead = some (.reduce name index) ∧
      tables.grammar.production? name index = some ⟨body⟩ := by
  have complete : LR0.Valid grammar.augmented.toGrammar (front ++ body) name index body [] :=
    valid.append_nil.append
  refine ⟨(fits.action?_reduce_iff stands _ name index).mpr ⟨known, follows, body, complete⟩, ?_⟩
  rw [fits.grammar_eq]
  exact valid.production

/-- The next symbol of the input is shifted when an item has it next. -/
theorem shift (fits : tables.Fits grammar) (spells : Spells grammar word stack) {name other : Name}
    {index : Nat} {before rest : List Symbol}
    (valid : LR0.Valid grammar.augmented.toGrammar word name index before (.terminal other :: rest))
    (more : List Symbol) (position : Nat) :
    ∃ next, tables.step ⟨stack, .terminal other :: more, position⟩ =
        .next ⟨next :: stack, more, position + 1⟩ ∧
      Spells grammar (word ++ [.terminal other]) (next :: stack) := by
  obtain ⟨number, below, isStack, stands⟩ := spells.exists_top
  obtain ⟨next, cell, nextStands⟩ := fits.exists_shift stands valid
  refine ⟨next, ?_, .push spells valid nextStands⟩
  rw [isStack]
  exact step_of_stands below (.terminal other :: more) position cell

/-- A complete item is reduced on what follows its nonterminal. -/
theorem reduce (fits : tables.Fits grammar) {front body : List Symbol}
    (spells : Spells grammar (front ++ body) stack) {name : Name} {index : Nat}
    (known : name ≠ grammar.freshStart)
    (valid : LR0.Valid grammar.augmented.toGrammar front name index [] body) (unread : List Symbol)
    (follows : unread.headD .endMarker ∈ grammar.follow.get name) (position : Nat) :
    ∃ next, tables.step ⟨stack, unread, position⟩ =
        .next ⟨next :: stack.drop body.length, unread, position⟩ ∧
      Spells grammar (front ++ [.nonterminal name]) (next :: stack.drop body.length) := by
  obtain ⟨number, below, isStack, stands⟩ := spells.exists_top
  have exposed := spells.drop
  obtain ⟨top, others, isExposed, topStands⟩ := exposed.exists_top
  rcases valid.start_or_context with ⟨_, isStart, _⟩ | ⟨_, _, _, _, context⟩
  · exact absurd isStart known
  · obtain ⟨next, inside, nextStands⟩ := exists_transition topStands context
    refine ⟨next, ?_, .push exposed context nextStands⟩
    obtain ⟨cell, found⟩ := fits.reduces stands known valid follows
    have goes := (fits.goto?_eq_some_iff topStands name next).mpr inside
    rw [isStack, step_of_stands below unread position cell]
    rw [isStack] at isExposed
    simp only [Tables.reduce, found, Production.length, isExposed, goes]

/-- One step shifts, reduces, rejects or accepts. -/
theorem turn (fits : tables.Fits grammar) (spells : Spells grammar word stack)
    (unread : List Symbol) (position : Nat) :
    tables.Turn grammar word ⟨stack, unread, position⟩ := by
  obtain ⟨number, below, isStack, stands⟩ := spells.exists_top
  cases cell : tables.action? number (unread.headD .endMarker) with
  | none =>
      refine .reject number ?_
      rw [isStack]
      simp only [step, Config.lookahead, cell]
  | some action =>
      cases action with
      | shift next =>
          obtain ⟨notNonterminal, inside⟩ := (fits.action?_shift_iff stands _ next).mp cell
          obtain ⟨isNext, _⟩ := LR0.Automaton.mem_transitionsOf.mp inside
          obtain ⟨_, _, _, _, valid⟩ := (mem_nextSymbols_iff _).mp isNext
          rcases fits.wellFormed.augmented.symbol_of_body valid.production
              (List.mem_append_right _ List.mem_cons_self) with ⟨name, same⟩ | ⟨name, same, _⟩
          · cases unread with
            | nil => exact absurd same (by simp)
            | cons head more =>
                have isHead : head = .terminal name := same
                subst isHead
                obtain ⟨next, taken, later⟩ := fits.shift spells valid more position
                exact .shift taken later
          · exact absurd same (notNonterminal name)
      | reduce name index =>
          obtain ⟨known, follows, body, valid⟩ := (fits.action?_reduce_iff stands _ _ _).mp cell
          obtain ⟨front, splits, atFront⟩ := valid.exists_front
          rw [List.append_nil] at atFront
          have found := atFront.production
          rw [Grammar.production?_augmented known] at found
          subst splits
          obtain ⟨next, taken, later⟩ := fits.reduce spells known atFront unread follows position
          exact .reduce found rfl follows taken later
      | accept =>
          obtain ⟨isEnd, index, body, valid⟩ := (fits.action?_accept_iff stands _).mp cell
          obtain ⟨front, splits, atFront⟩ := valid.exists_front
          have found := valid.production
          rw [Grammar.production?_augmented_freshStart] at found
          refine .accept ?_ isEnd (by rw [isStack]; exact step_of_stands below unread position cell)
          rcases atFront.start_or_context with ⟨isNil, _, _⟩ | ⟨other, place, before, rest, context⟩
          · rw [splits, isNil]
            simpa using found.2
          · exact absurd (List.mem_append_right _ List.mem_cons_self)
              (fits.wellFormed.freshStart_not_mem_body context.production)

end Fits

end Tables

end Lookahead.SLR1
