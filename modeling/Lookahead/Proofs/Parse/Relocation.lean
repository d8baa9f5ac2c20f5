import Lookahead.Proofs.Classes.Selection
import Lookahead.Proofs.LR0.Relocation

/-!
# Parsers for productions at other places

A table names a production by its place, and a parser only uses its nonterminal and
its body.  So the parsers of a grammar and of one that has its productions at other
places make the same steps, though their tables differ.
-/

namespace Lookahead

namespace Grammar.Relocated

variable {grammar other : Grammar} {place : Name → Equiv.Perm Nat}

theorem selects (relocated : grammar.Relocated other place) :
    grammar.Selects other fun name => place name where
  start := relocated.start.symm
  found := fun _ _ _ found => (relocated.production? _ _).trans found
  injective := fun name _ _ same => (place name).injective same

section Sets

variable (relocated : grammar.Relocated other place) (wellFormed : grammar.WellFormed)
  (otherFormed : other.WellFormed)
include relocated wellFormed otherFormed

theorem ofSequence_eq (symbols : List Symbol) :
    other.firstSets.ofSequence symbols = grammar.firstSets.ofSequence symbols :=
  SortedSet.ext fun symbol =>
    ⟨relocated.symm.selects.first_subset otherFormed wellFormed symbols symbol,
      relocated.selects.first_subset wellFormed otherFormed symbols symbol⟩

theorem follow_get_eq (name : Name) : other.follow.get name = grammar.follow.get name :=
  SortedSet.ext fun symbol =>
    ⟨relocated.symm.selects.follow_subset otherFormed wellFormed name symbol,
      relocated.selects.follow_subset wellFormed otherFormed name symbol⟩

theorem isLL1_eq : other.analysis.isLL1 = grammar.analysis.isLL1 :=
  Bool.eq_iff_iff.mpr ⟨relocated.selects.isLL1 wellFormed otherFormed,
    relocated.symm.selects.isLL1 otherFormed wellFormed⟩

theorem isSLR1_eq : other.analysis.isSLR1 = grammar.analysis.isSLR1 :=
  Bool.eq_iff_iff.mpr ⟨relocated.selects.isSLR1 wellFormed otherFormed,
    relocated.symm.selects.isSLR1 otherFormed wellFormed⟩

end Sets

end Grammar.Relocated

namespace LL1.Table

variable {grammar other : Grammar} {place : Name → Equiv.Perm Nat} {table there : Table}
  (relocated : grammar.Relocated other place) (fits : table.Fits grammar) (fitsThere : there.Fits other)
include relocated fits fitsThere

/-- The other table has the place to which a production was moved in the production's cells. -/
theorem get?_relocate (name : Name) (lookahead : Symbol) :
    there.get? name lookahead = (table.get? name lookahead).map (place name) := by
  apply Option.ext
  intro moved
  obtain ⟨index, isMoved⟩ := (place name).surjective moved
  subst isMoved
  rw [get?_eq_some_iff fitsThere.ok, Option.map_eq_some_iff]
  simp only [relocated.production?, FirstSets.Opens,
    relocated.ofSequence_eq fits.wellFormed fitsThere.wellFormed,
    relocated.follow_get_eq fits.wellFormed fitsThere.wellFormed,
    (place name).injective.eq_iff, exists_eq_right]
  exact (get?_eq_some_iff fits.ok name lookahead index).symm

theorem step_relocate : there.step = table.step := by
  have isGrammar := grammar_of_build fits.ok
  have isOther := grammar_of_build fitsThere.ok
  funext config
  unfold step
  split
  · rw [isGrammar, isOther, relocated.start]
  · rename_i name rest _
    rw [get?_relocate relocated fits fitsThere, isGrammar, isOther]
    cases cell : table.get? name config.lookahead with
    | none => rfl
    | some index =>
        obtain ⟨production, found, _⟩ := (get?_eq_some_iff fits.ok name config.lookahead index).mp cell
        simp only [Option.map_some, relocated.production?, found]
  · rfl
  · rfl

theorem parse?_relocate : there.parse? = table.parse? := by
  funext input
  apply Option.ext
  intro result
  rw [parse?_eq_some_iff, parse?_eq_some_iff, step_relocate relocated fits fitsThere, initial, initial,
    grammar_of_build fits.ok, grammar_of_build fitsThere.ok, relocated.start]

end LL1.Table

namespace Action

def relocate (place : Name → Equiv.Perm Nat) : Action → Action
  | .shift state => .shift state
  | .reduce nonterminal production => .reduce nonterminal (place nonterminal production)
  | .accept => .accept

variable {place : Name → Equiv.Perm Nat}

@[simp]
theorem relocate_relocate_symm (place : Name → Equiv.Perm Nat) (action : Action) :
    (action.relocate fun name => (place name).symm).relocate place = action := by
  cases action <;> simp [relocate]

theorem relocate_injective : Function.Injective (relocate place) := by
  refine Function.LeftInverse.injective (g := relocate fun name => (place name).symm) fun action => ?_
  cases action <;> simp [relocate]

end Action

namespace SLR1

variable {grammar other : Grammar} {place : Name → Equiv.Perm Nat}

theorem mem_itemClaims_relocate {follow followThere : FollowSets} {item : LR0.Item}
    {lookahead : Symbol} {action : Action} (relocated : grammar.Relocated other place)
    (sameFollow : ∀ name, followThere.get name = follow.get name) :
    (lookahead, action.relocate place) ∈ itemClaims other followThere (item.relocate place) ↔
      (lookahead, action) ∈ itemClaims grammar follow item := by
  cases action with
  | shift state => exact iff_of_false not_mem_itemClaims_shift not_mem_itemClaims_shift
  | reduce name index =>
      rw [Action.relocate, Tables.mem_itemClaims_reduce, Tables.mem_itemClaims_reduce,
        LR0.isComplete_relocate relocated, relocated.start, sameFollow]
      refine and_congr_right fun _ => and_congr_right fun isName => and_congr_left fun _ => ?_
      rw [← isName]
      exact (place item.nonterminal).injective.eq_iff
  | accept =>
      rw [Action.relocate, Tables.mem_itemClaims_accept, Tables.mem_itemClaims_accept,
        LR0.isComplete_relocate relocated, relocated.start]
      rfl

namespace Tables

variable {tables there : Tables} {number : Nat}

theorem Fits.row_eq_none (fits : tables.Fits grammar)
    (missing : (LR0.states grammar.augmented.toGrammar)[number]? = none) :
    tables.rows[number]? = none := by
  rw [fits.rows_eq, List.getElem?_map, missing]
  rfl

/-- What a cell reduces by is there. -/
theorem Fits.exists_production_of_reduce (fits : tables.Fits grammar) {lookahead : Symbol} {name : Name}
    {index : Nat} (cell : tables.action? number lookahead = some (.reduce name index)) :
    ∃ production, grammar.augmented.toGrammar.production? name index = some production := by
  obtain ⟨row, found, _⟩ := Option.bind_eq_some_iff.mp cell
  rw [fits.rows_eq, List.getElem?_map] at found
  obtain ⟨state, numbered, _⟩ := Option.map_eq_some_iff.mp found
  rcases mem_claims_stateRow.mp ((fits.action?_eq_some_iff numbered _ _).mp cell) with
    isShift | ⟨item, _, claimed⟩
  · obtain ⟨_, _, never, _⟩ := mem_shifts.mp isShift
    cases never
  · obtain ⟨complete, isName, isIndex, _⟩ := mem_itemClaims_reduce.mp claimed
    obtain ⟨production, inGrammar, _⟩ := LR0.Item.exists_production_of_isComplete complete
    exact ⟨production, isName ▸ isIndex ▸ inGrammar⟩

section Augmented

variable (relocated : grammar.augmented.toGrammar.Relocated other.augmented.toGrammar place)
  (startStays : place grammar.freshStart 0 = 0)
include relocated startStays

theorem transitions_relocate (state : LR0.ItemSet) :
    transitions other (state.relocate place) = transitions grammar state := by
  rw [transitions, LR0.states_relocate relocated startStays, LR0.transitionsOf_relocate relocated]

variable (sameFollow : ∀ name, other.follow.get name = grammar.follow.get name)
include sameFollow

/-- The moved state claims the moved actions. -/
theorem mem_claims_relocate {state : LR0.ItemSet} {lookahead : Symbol} {action : Action} :
    (lookahead, action.relocate place) ∈ claims other (state.relocate place) ↔
      (lookahead, action) ∈ claims grammar state := by
  rw [mem_claims_stateRow, mem_claims_stateRow, mem_shifts, mem_shifts,
    LR0.ItemSet.exists_mem_relocate, transitions_relocate relocated startStays]
  simp only [mem_itemClaims_relocate relocated sameFollow]
  refine or_congr_left (and_congr_right fun _ => exists_congr fun next => and_congr_left fun _ => ?_)
  cases action <;> simp [Action.relocate]

variable (fits : tables.Fits grammar) (fitsThere : there.Fits other)
include fits fitsThere

theorem action?_relocate (number : Nat) (lookahead : Symbol) :
    there.action? number lookahead = (tables.action? number lookahead).map (Action.relocate place) := by
  have sameStates := LR0.states_relocate relocated startStays
  cases numbered : (LR0.states grammar.augmented.toGrammar)[number]? with
  | none =>
      have missing : (LR0.states other.augmented.toGrammar)[number]? = none := by
        rw [sameStates, List.getElem?_map, numbered]
        rfl
      rw [action?, action?, fits.row_eq_none numbered, fitsThere.row_eq_none missing]
      rfl
  | some state =>
      have numberedThere : Numbers other number (state.relocate place) := by
        rw [Numbers, sameStates, List.getElem?_map, numbered]
        rfl
      apply Option.ext
      intro moved
      rw [← Action.relocate_relocate_symm place moved, fitsThere.action?_eq_some_iff numberedThere,
        mem_claims_relocate relocated startStays sameFollow, ← fits.action?_eq_some_iff numbered,
        Option.map_eq_some_iff]
      simp only [Action.relocate_injective.eq_iff, exists_eq_right]

omit sameFollow in
theorem goto?_relocate (number : Nat) (name : Name) :
    there.goto? number name = tables.goto? number name := by
  have sameStates := LR0.states_relocate relocated startStays
  cases numbered : (LR0.states grammar.augmented.toGrammar)[number]? with
  | none =>
      have missing : (LR0.states other.augmented.toGrammar)[number]? = none := by
        rw [sameStates, List.getElem?_map, numbered]
        rfl
      rw [goto?, goto?, fits.row_eq_none numbered, fitsThere.row_eq_none missing]
  | some state =>
      have numberedThere : Numbers other number (state.relocate place) := by
        rw [Numbers, sameStates, List.getElem?_map, numbered]
        rfl
      apply Option.ext
      intro next
      rw [fitsThere.goto?_eq_some_iff numberedThere, fits.goto?_eq_some_iff numbered,
        transitions_relocate relocated startStays]

omit sameFollow in
/-- A reduction by the moved production pops the same states and goes to the same state. -/
theorem reduce_relocate {lookahead : Symbol} {name : Name} {index : Nat}
    (cell : tables.action? number lookahead = some (.reduce name index)) (config : Config) :
    there.reduce config name (place name index) = tables.reduce config name index := by
  obtain ⟨production, found⟩ := fits.exists_production_of_reduce cell
  have foundThere := (relocated.production? name index).trans found
  simp only [reduce, fits.grammar_eq, fitsThere.grammar_eq, found, foundThere,
    goto?_relocate relocated startStays fits fitsThere]

theorem step_relocate : there.step = tables.step := by
  have sameStart : there.grammar.start = tables.grammar.start := by
    rw [fits.grammar_eq, fitsThere.grammar_eq]
    exact relocated.start
  funext config
  unfold step
  split
  · rw [sameStart]
  · rename_i state _ _
    rw [action?_relocate relocated startStays sameFollow fits fitsThere]
    cases cell : tables.action? state config.lookahead with
    | none => rfl
    | some action =>
        cases action with
        | shift next => rfl
        | reduce name index => exact reduce_relocate relocated startStays fits fitsThere cell config
        | accept => rfl

theorem parse?_relocate : there.parse? = tables.parse? := by
  funext input
  apply Option.ext
  intro result
  rw [parse?_eq_some_iff fits.action?_endMarker_ne_shift,
    parse?_eq_some_iff fitsThere.action?_endMarker_ne_shift,
    step_relocate relocated startStays sameFollow fits fitsThere]

end Augmented

end Tables

end SLR1

end Lookahead
