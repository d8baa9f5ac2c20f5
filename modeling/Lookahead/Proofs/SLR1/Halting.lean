import Lookahead.Proofs.Grammar.Beginning
import Lookahead.Proofs.SLR1.Reading
import Lookahead.Proofs.SLR1.StepBound

/-!
# Where a shift-reduce parse stops

When all that stands in derived sequences begins, some symbol could come next
after whatever the stack spells.  On that symbol the parser makes the reductions
that it has made on another one, and then gets on.  There are few such symbols,
so it never makes too many reductions.
-/

namespace Lookahead.SLR1.Tables

open Grammar

variable {tables : Tables} {grammar : Grammar} {word before rest : List Symbol} {stack : List Nat}
  {name : Name} {index : Nat}

/-- On a symbol the parser gets on from every stack that spells a word. -/
def Passes (tables : Tables) (grammar : Grammar) (word : List Symbol) (head : Symbol) : Prop :=
  ∀ stack, Spells grammar word stack → ¬ tables.Forever head stack

/-- Only the symbols of a row can ask for reductions from a stack. -/
theorem exists_lookaheads (tables : Tables) (stack : List Nat) :
    ∃ lookaheads : List Symbol, ∀ head next,
      tables.fall? head stack = some next → head ∈ lookaheads := by
  cases stack with
  | nil =>
      refine ⟨[], fun head next falls => ?_⟩
      obtain ⟨_, _, _, _, _, _, _, _, same, _⟩ := fall?_eq_some_iff.mp falls
      exact absurd same (by simp)
  | cons state below =>
      cases found : tables.rows[state]? with
      | none =>
          refine ⟨[], fun head next falls => ?_⟩
          have inRange := lt_states_of_fall? falls
          rw [List.getElem?_eq_none_iff] at found
          exact absurd inRange (Nat.not_lt.mpr found)
      | some row =>
          refine ⟨row.actions.claims.map Prod.fst, fun head next falls => ?_⟩
          obtain ⟨top, _, _, _, _, _, _, _, same, action, _⟩ := fall?_eq_some_iff.mp falls
          rw [← (List.cons.inj same).1, action?, found, Option.bind_some] at action
          exact List.mem_map.mpr ⟨_, Row.mem_claims_of_get? _ _ _ action, rfl⟩

/-- One bound is above the numbers of reductions on each of a list of symbols, where they end. -/
theorem exists_bound (tables : Tables) (stack : List Nat) (lookaheads : List Symbol) :
    ∃ bound, ∀ head ∈ lookaheads, ¬ tables.Forever head stack →
      ∀ last, ¬ tables.Falls head stack bound last := by
  induction lookaheads with
  | nil => exact ⟨0, List.forall_mem_nil _⟩
  | cons first others ih =>
      obtain ⟨bound, above⟩ := ih
      by_cases forever : tables.Forever first stack
      · refine ⟨bound, fun head inside ends => ?_⟩
        rcases List.mem_cons.mp inside with here | later
        · exact absurd (here ▸ forever) ends
        · exact above head later ends
      · obtain ⟨count, stops⟩ := Classical.not_forall.mp forever
        refine ⟨bound + count, fun head inside ends last falls => ?_⟩
        rcases List.mem_cons.mp inside with here | later
        · subst here
          exact stops (falls.exists_of_le (Nat.le_add_left count bound))
        · obtain ⟨middle, shorter⟩ := falls.exists_of_le (Nat.le_add_right bound count)
          exact above head later ends middle shorter

namespace Fits

/-- A symbol that comes after a nonterminal in a derived sequence follows it. -/
theorem mem_follow_of_derives (fits : tables.Fits grammar) {head : Symbol} {tail : List Symbol}
    (isInput : head.isInput = true) (chain : grammar.Derives
      [.nonterminal grammar.start, .endMarker] (before ++ .nonterminal name :: head :: tail)) :
    head ∈ grammar.follow.get name :=
  (fits.closed.followed_of_derives chain).mem_follow isInput

/-- What comes after a dot can be found, up to its first symbol or altogether. -/
theorem exists_passes_before (fits : tables.Fits grammar)
    (begins : ∀ name, grammar.Reachable name → grammar.Begins name)
    (valid : LR0.Valid grammar.augmented.toGrammar word name index before rest) {head : Symbol}
    {tail : List Symbol} (isInput : head.isInput = true)
    (chain : grammar.Derives [.nonterminal grammar.start, .endMarker]
      (word ++ (rest ++ head :: tail)))
    (passes : tables.Passes grammar (word ++ rest) head) :
    ∃ next later, next.isInput = true ∧ grammar.Derives
        [.nonterminal grammar.start, .endMarker] (word ++ next :: later) ∧
      tables.Passes grammar word next := by
  have followed := fits.closed.followed_of_derives chain
  rw [followed_append, followed_append] at followed
  obtain ⟨_, restFollowed, _⟩ := followed
  rcases opening_of_derives fits.wellFormed begins chain (fits.endMarker_not_mem_of_valid valid) with ⟨next, leads⟩ | yields
  · obtain ⟨more, onward⟩ := leads.exists_derives
    refine ⟨next, more ++ head :: tail, leads.isInput next List.mem_cons_self, ?_, ?_⟩
    · have whole := chain.trans (.append (.refl word) (onward.append (.refl (head :: tail))))
      simpa using whole
    · intro stack spells forever
      have alone : Followed grammar.firstSets grammar.follow (fun _ => False) rest :=
        restFollowed.mono fun _ never => never.elim
      obtain ⟨last, moved⟩ := fits.exists_reaches_of_leads leads spells valid.append_nil alone [] 0
      obtain ⟨_, same, _⟩ := Forever.reaches [next] forever moved
      exact absurd (congrArg Config.position same) (by simp)
  · refine ⟨head, tail, isInput, ?_, ?_⟩
    · have whole := chain.trans (.append (.refl word) (yields.derives.append (.refl (head :: tail))))
      exact whole
    · intro stack spells forever
      have byHead : Followed grammar.firstSets grammar.follow (· = head) rest :=
        restFollowed.mono fun symbol same => (FirstSets.opens_input isInput tail symbol).mpr same
      obtain ⟨last, moved, lastSpells⟩ := fits.exists_reaches_of_yields yields spells valid.append_nil
        [head] byHead 0
      obtain ⟨middle, same, onward⟩ := Forever.reaches [head] forever moved
      have isLast : last = middle := congrArg Config.stack same
      exact passes last lastSpells (isLast ▸ onward)

/--
After the body of a valid item some symbol can come next on which the parser gets on: the end
marker after the start symbol, and else one that comes next in the context of the item.
-/
theorem exists_passes_after (fits : tables.Fits grammar)
    (begins : ∀ name, grammar.Reachable name → grammar.Begins name)
    (valid : LR0.Valid grammar.augmented.toGrammar word name index before rest) :
    ∃ head tail, head.isInput = true ∧ grammar.Derives
        [.nonterminal grammar.start, .endMarker] (word ++ (rest ++ head :: tail)) ∧
      tables.Passes grammar (word ++ rest) head := by
  induction valid with
  | start found =>
      rw [(production?_augmented_freshStart.mp found).2]
      refine ⟨.endMarker, [], rfl, .refl _, ?_⟩
      intro stack spells forever
      have stops := Machine.Halts.halt (fits.accept spells [] 0)
      exact Forever.not_halts forever _ stops
  | @advance word before rest name index symbol valid ih =>
      obtain ⟨head, tail, isInput, chain, passes⟩ := ih
      refine ⟨head, tail, isInput, ?_, ?_⟩
      · simpa using chain
      · simpa using passes
  | @expand word before rest name other index place production context found ih =>
      obtain ⟨head, tail, isInput, chain, passes⟩ := ih
      obtain ⟨next, later, isNext, nextChain, nextPasses⟩ := fits.exists_passes_before begins
        context.advance isInput (by simpa using chain) (by simpa using passes)
      rw [List.append_assoc, List.singleton_append] at nextChain
      have comes := fits.mem_follow_of_derives isNext nextChain
      have known : other ≠ grammar.freshStart := by
        rintro rfl
        exact fits.wellFormed.freshStart_not_mem_body context.production
          (List.mem_append_right _ List.mem_cons_self)
      refine ⟨next, later, isNext, ?_, ?_⟩
      · rw [production?_augmented known] at found
        exact nextChain.step (.expand word (next :: later) found)
      · intro stack spells forever
        obtain ⟨goes, taken, pushed⟩ := fits.reduce spells known (.expand context found) [next] comes 0
        obtain ⟨middle, same, onward⟩ := Forever.reaches [next] forever (.single taken)
        have isMiddle : goes :: stack.drop production.body.length = middle :=
          congrArg Config.stack same
        exact nextPasses _ pushed (isMiddle ▸ onward)

/-- After whatever a stack spells some symbol can come next, on which the parser gets on. -/
theorem exists_passes (fits : tables.Fits grammar)
    (begins : ∀ name, grammar.Reachable name → grammar.Begins name)
    (spells : Spells grammar word stack) :
    ∃ head tail, head.isInput = true ∧ grammar.Derives
        [.nonterminal grammar.start, .endMarker] (word ++ head :: tail) ∧
      tables.Passes grammar word head := by
  obtain ⟨name, index, before, rest, valid⟩ := spells.exists_valid
  obtain ⟨head, tail, isInput, chain, passes⟩ := fits.exists_passes_after begins valid
  exact fits.exists_passes_before begins valid isInput chain passes

/-- A reduction undoes an expansion, and is made on all that follows its nonterminal. -/
theorem reduces_of_fall? (fits : tables.Fits grammar) (spells : Spells grammar word stack)
    {lookahead : Symbol} {next : List Nat} (first : tables.fall? lookahead stack = some next) :
    ∃ front name, grammar.Derives (front ++ [.nonterminal name]) word ∧
      Spells grammar (front ++ [.nonterminal name]) next ∧
      ∀ other ∈ grammar.follow.get name, tables.fall? other stack = some next := by
  obtain ⟨state, below, name, index, production, exposed, others, goes, isStack, action, found,
    isDrop, isGoto, same⟩ := fall?_eq_some_iff.mp first
  obtain ⟨number, _, isTop, stands⟩ := spells.exists_top
  have isState : number = state := (List.cons.inj (isTop.symm.trans isStack)).1
  subst isState
  obtain ⟨known, follows, body, valid⟩ := (fits.action?_reduce_iff stands _ _ _).mp action
  obtain ⟨front, splits, atFront⟩ := valid.exists_front
  rw [List.append_nil] at atFront
  subst splits
  obtain ⟨pushed, taken, pushedSpells⟩ := fits.reduce spells known atFront [lookahead] follows 0
  have steps := step_of_fall? [lookahead] 0 first
  have isNext : next = pushed :: stack.drop body.length :=
    congrArg Config.stack (Step.next.inj (steps.symm.trans taken))
  refine ⟨front, name, ?_, isNext ▸ pushedSpells, ?_⟩
  · have inGrammar := atFront.production
    rw [production?_augmented known] at inGrammar
    exact Derives.append (.refl front) (.of_production inGrammar)
  · intro other comes
    have again := (fits.action?_reduce_iff stands other name index).mpr ⟨known, comes, body, valid⟩
    exact fall?_eq_some_iff.mpr ⟨number, below, name, index, production, exposed, others, goes, isStack,
      again, found, isDrop, isGoto, same⟩

/-- Reductions are made again on every symbol that can come next after the last of them. -/
theorem falls_again (fits : tables.Fits grammar) {lookahead : Symbol} {count : Nat}
    {last : List Nat} (falls : tables.Falls lookahead stack count last)
    (spells : Spells grammar word stack) :
    ∃ lastWord, Spells grammar lastWord last ∧ grammar.Derives lastWord word ∧
      ∀ head tail, head.isInput = true → grammar.Derives
          [.nonterminal grammar.start, .endMarker] (lastWord ++ head :: tail) →
        tables.Falls head stack count last := by
  induction falls generalizing word with
  | refl stack => exact ⟨word, spells, .refl word, fun head _ _ _ => .refl stack⟩
  | step first _ ih =>
      obtain ⟨front, name, undone, pushed, everywhere⟩ := fits.reduces_of_fall? spells first
      obtain ⟨lastWord, lastSpells, derives, again⟩ := ih pushed
      refine ⟨lastWord, lastSpells, derives.trans undone, ?_⟩
      intro head tail isInput chain
      have earlier := chain.trans (derives.append (.refl (head :: tail)))
      rw [List.append_assoc, List.singleton_append] at earlier
      have comes := fits.mem_follow_of_derives isInput earlier
      exact .step (everywhere head comes) (again head tail isInput chain)

/-- Reductions on one symbol end when all that stands in derived sequences begins. -/
theorem not_forever (fits : tables.Fits grammar)
    (begins : ∀ name, grammar.Reachable name → grammar.Begins name)
    (spells : Spells grammar word stack) (lookahead : Symbol) :
    ¬ tables.Forever lookahead stack := by
  intro forever
  -- More reductions than on any of the symbols on which they end, and yet all of them are made
  -- again on one of these symbols.
  obtain ⟨lookaheads, all⟩ := tables.exists_lookaheads stack
  obtain ⟨bound, above⟩ := tables.exists_bound stack lookaheads
  obtain ⟨last, falls⟩ := forever (bound + 1)
  obtain ⟨lastWord, lastSpells, _, again⟩ := fits.falls_again falls spells
  obtain ⟨head, tail, isInput, chain, passes⟩ := fits.exists_passes begins lastSpells
  have onHead := again head tail isInput chain
  have ends : ¬ tables.Forever head stack := fun endless =>
    passes last lastSpells (endless.of_falls onHead)
  obtain ⟨middle, fewer⟩ := onHead.exists_of_le (Nat.le_succ bound)
  cases onHead with
  | step first _ => exact above head (all head _ first) ends middle fewer

/-- Every parse stops when all that stands in derived sequences begins. -/
theorem exists_halts (fits : tables.Fits grammar)
    (begins : ∀ name, grammar.Reachable name → grammar.Begins name) (input : List Symbol) :
    ∃ result, Machine.Halts tables.step (initial input) result := by
  refine Classical.byContradiction fun never => ?_
  obtain ⟨last, reached, endless⟩ :=
    (not_halts_iff fits.action?_endMarker_ne_shift (initial input)).mp never
  obtain ⟨_, _, hasRead⟩ := fits.exists_hasRead (hasRead_initial grammar input) reached
  exact fits.not_forever begins hasRead.spells last.lookahead endless.forever

end Fits

end Lookahead.SLR1.Tables
