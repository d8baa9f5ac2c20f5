import Lookahead.Proofs.Parse.Runs
import Lookahead.SLR1.Parser

/-!
# Reductions on one lookahead symbol

While nothing is read, a run makes one reduction after another on the same
lookahead symbol.  A reduction that is made with part of a stack is made above
any base, so a part that comes up again above itself comes up for ever.
-/

namespace Lookahead.SLR1.Tables

def fall? (tables : Tables) (lookahead : Symbol) (stack : List Nat) : Option (List Nat) :=
  match stack.head?.bind fun state => tables.action? state lookahead with
  | some (.reduce name index) =>
      (tables.grammar.production? name index).bind fun production =>
        match stack.drop production.length with
        | [] => none
        | exposed :: below => (tables.goto? exposed name).map fun state => state :: exposed :: below
  | _ => none

inductive Falls (tables : Tables) (lookahead : Symbol) : List Nat → Nat → List Nat → Prop where
  | refl (stack : List Nat) : Falls tables lookahead stack 0 stack
  | step {stack next last : List Nat} {count : Nat} (first : tables.fall? lookahead stack = some next)
      (rest : Falls tables lookahead next count last) : Falls tables lookahead stack (count + 1) last

def falls? (tables : Tables) (lookahead : Symbol) : Nat → List Nat → Option (List Nat)
  | 0, stack => some stack
  | count + 1, stack => (tables.fall? lookahead stack).bind (tables.falls? lookahead count)

def Forever (tables : Tables) (lookahead : Symbol) (stack : List Nat) : Prop :=
  ∀ count, ∃ last, tables.Falls lookahead stack count last

/-- Some reductions lead to a stack from whose top part more reductions lead above that part. -/
def Endless (tables : Tables) (lookahead : Symbol) (stack : List Nat) : Prop :=
  ∃ before part base extra count, tables.Falls lookahead stack before (part ++ base) ∧
    tables.Falls lookahead part (count + 1) (part ++ extra)

variable {tables : Tables} {lookahead : Symbol} {stack next part : List Nat}

/-- All that a reduction does. -/
theorem fall?_eq_some_iff : tables.fall? lookahead stack = some next ↔
    ∃ state rest name index production exposed below goes, stack = state :: rest ∧
      tables.action? state lookahead = some (.reduce name index) ∧
      tables.grammar.production? name index = some production ∧
      stack.drop production.length = exposed :: below ∧
      tables.goto? exposed name = some goes ∧ next = goes :: exposed :: below := by
  constructor
  · intro falls
    unfold fall? at falls
    split at falls
    · rename_i name index cell
      obtain ⟨state, top, action⟩ := Option.bind_eq_some_iff.mp cell
      obtain ⟨rest, isStack⟩ := List.head?_eq_some_iff.mp top
      obtain ⟨production, found, pops⟩ := Option.bind_eq_some_iff.mp falls
      split at pops
      · exact absurd pops (by simp)
      · rename_i exposed below isDrop
        obtain ⟨goes, isGoto, same⟩ := Option.map_eq_some_iff.mp pops
        exact ⟨state, rest, name, index, production, exposed, below, goes, isStack, action, found,
          isDrop, isGoto, same.symm⟩
    · exact absurd falls (by simp)
  · rintro ⟨state, rest, name, index, production, exposed, below, goes, isStack, action, found,
      isDrop, isGoto, same⟩
    have top : stack.head?.bind (fun state => tables.action? state lookahead) =
        some (.reduce name index) := by
      rw [isStack]
      exact action
    simp only [fall?, top, found, Option.bind_some, isDrop, isGoto, Option.map_some, same]

/-- A reduction is what a step does when the tables ask for one. -/
theorem step_of_fall? (unread : List Symbol) (position : Nat)
    (falls : tables.fall? (unread.headD .endMarker) stack = some next) :
    tables.step ⟨stack, unread, position⟩ = .next ⟨next, unread, position⟩ := by
  obtain ⟨state, rest, name, index, production, exposed, below, goes, isStack, action, found,
    isDrop, isGoto, same⟩ := fall?_eq_some_iff.mp falls
  subst isStack
  simp only [Tables.step, Config.lookahead, action, reduce, found, isDrop, isGoto, same]

/-- Where no reduction is made, a step can only go on by a shift. -/
theorem exists_shift_of_fall?_eq_none {unread : List Symbol} {position : Nat} {config : Config}
    (rests : tables.fall? (unread.headD .endMarker) stack = none)
    (taken : tables.step ⟨stack, unread, position⟩ = .next config) :
    ∃ state rest goes, stack = state :: rest ∧
      tables.action? state (unread.headD .endMarker) = some (.shift goes) ∧
      config = ⟨goes :: stack, unread.tail, position + 1⟩ := by
  cases stack with
  | nil => exact absurd taken (by simp [Tables.step])
  | cons state rest =>
      cases cell : tables.action? state (unread.headD .endMarker) with
      | none =>
          simp only [Tables.step, Config.lookahead, cell] at taken
          exact absurd taken (by simp)
      | some action =>
          simp only [Tables.step, Config.lookahead, cell] at taken
          cases action with
          | shift goes => exact ⟨state, rest, goes, rfl, cell, (Step.next.inj taken).symm⟩
          | accept =>
              simp only at taken
              split at taken
              · exact absurd taken (by simp)
              · exact absurd taken (by simp)
          | reduce name index =>
              simp only [reduce] at taken
              split at taken
              · exact absurd taken (by simp)
              · rename_i production found
                split at taken
                · exact absurd taken (by simp)
                · rename_i exposed below isDrop
                  split at taken
                  · exact absurd taken (by simp)
                  · rename_i goes isGoto
                    have falls := fall?_eq_some_iff.mpr ⟨state, rest, name, index, production, exposed,
                      below, goes, rfl, cell, found, isDrop, isGoto, rfl⟩
                    cases rests.symm.trans falls

/-- A reduction made with part of a stack is made above any base. -/
theorem fall?_append (falls : tables.fall? lookahead part = some next) (base : List Nat) :
    tables.fall? lookahead (part ++ base) = some (next ++ base) := by
  obtain ⟨state, rest, name, index, production, exposed, below, goes, isPart, action, found,
    isDrop, isGoto, same⟩ := fall?_eq_some_iff.mp falls
  have enough : production.length ≤ part.length := by
    refine Nat.le_of_lt (Nat.lt_of_sub_pos ?_)
    rw [← List.length_drop, isDrop]
    exact Nat.succ_pos _
  refine fall?_eq_some_iff.mpr ⟨state, rest ++ base, name, index, production, exposed, below ++ base,
    goes, by rw [isPart]; rfl, action, found, ?_, isGoto, by rw [same]; rfl⟩
  rw [List.drop_append_of_le_length enough, isDrop]
  rfl

/-- A reduction that a part alone does not make uncovers the state below it, if that is all it has. -/
theorem exists_uncovered {exposed : Nat} (rests : tables.fall? lookahead part = none)
    (filled : part ≠ []) (falls : tables.fall? lookahead (part ++ [exposed]) = some next) :
    ∃ goes, next = [goes, exposed] := by
  obtain ⟨state, rest, name, index, production, top, below, goes, isPart, action, found,
    isDrop, isGoto, same⟩ := fall?_eq_some_iff.mp falls
  obtain ⟨head, others, isCons⟩ := List.exists_cons_of_ne_nil filled
  subst isCons
  obtain ⟨sameHead, _⟩ := List.cons.inj isPart
  by_cases within : production.length < (head :: others).length
  · rw [List.drop_append_of_le_length (Nat.le_of_lt within),
      List.drop_eq_getElem_cons within, List.cons_append] at isDrop
    obtain ⟨sameTop, _⟩ := List.cons.inj isDrop
    have alone := fall?_eq_some_iff.mpr ⟨head, others, name, index, production, _, _, goes, rfl,
      sameHead ▸ action, found, List.drop_eq_getElem_cons within, sameTop ▸ isGoto, rfl⟩
    cases rests.symm.trans alone
  · rw [List.drop_append, List.drop_eq_nil_of_le (Nat.le_of_not_lt within), List.nil_append] at isDrop
    have short := List.length_drop (i := production.length - (head :: others).length) (l := [exposed])
    have inside : top ∈ [exposed] := List.mem_of_mem_drop (isDrop ▸ List.mem_cons_self)
    rw [isDrop, List.length_cons, List.length_singleton] at short
    have nothing : below = [] := List.length_eq_zero_iff.mp (by omega)
    exact ⟨goes, by rw [same, nothing, List.mem_singleton.mp inside]⟩

namespace Falls

variable {count more : Nat} {last : List Nat}

theorem of_falls? (made : tables.falls? lookahead count stack = some last) :
    tables.Falls lookahead stack count last := by
  induction count generalizing stack with
  | zero =>
      obtain rfl := Option.some.inj made
      exact .refl stack
  | succ count ih =>
      obtain ⟨next, first, rest⟩ := Option.bind_eq_some_iff.mp made
      exact .step first (ih rest)

theorem single (first : tables.fall? lookahead stack = some next) :
    tables.Falls lookahead stack 1 next :=
  .step first (.refl next)

theorem trans {middle : List Nat} (lower : tables.Falls lookahead stack count middle)
    (upper : tables.Falls lookahead middle more last) :
    tables.Falls lookahead stack (count + more) last := by
  induction lower with
  | refl => exact (Nat.zero_add more).symm ▸ upper
  | step first _ ih =>
      rw [Nat.succ_add]
      exact .step first (ih upper)

theorem append (falls : tables.Falls lookahead part count last) (base : List Nat) :
    tables.Falls lookahead (part ++ base) count (last ++ base) := by
  induction falls with
  | refl => exact .refl _
  | step first _ ih => exact .step (fall?_append first base) ih

theorem after_eq {unread : List Symbol} (position : Nat)
    (falls : tables.Falls (unread.headD .endMarker) stack count last) :
    Machine.after tables.step count ⟨stack, unread, position⟩ = some ⟨last, unread, position⟩ := by
  generalize isHead : unread.headD .endMarker = lookahead at falls
  induction falls with
  | refl => rfl
  | step first _ ih =>
      subst isHead
      rw [Machine.after_succ_of_next (step_of_fall? unread position first)]
      exact ih

/-- A stack is left after every number of reductions that is not too large. -/
theorem exists_of_le {fewer : Nat} (falls : tables.Falls lookahead stack count last)
    (le : fewer ≤ count) : ∃ middle, tables.Falls lookahead stack fewer middle := by
  induction falls generalizing fewer with
  | refl stack => exact ⟨stack, (Nat.le_zero.mp le).symm ▸ .refl stack⟩
  | @step stack next last count first _ ih =>
      cases fewer with
      | zero => exact ⟨stack, .refl stack⟩
      | succ fewer =>
          obtain ⟨middle, falls⟩ := ih (Nat.le_of_succ_le_succ le)
          exact ⟨middle, .step first falls⟩

theorem ne_nil (falls : tables.Falls lookahead stack count last) (filled : stack ≠ []) :
    last ≠ [] := by
  induction falls with
  | refl => exact filled
  | step first _ ih =>
      obtain ⟨_, _, _, _, _, _, _, _, _, _, _, _, _, same⟩ := fall?_eq_some_iff.mp first
      exact ih (by rw [same]; simp)

end Falls

namespace Endless

theorem append (endless : tables.Endless lookahead part) (base : List Nat) :
    tables.Endless lookahead (part ++ base) := by
  obtain ⟨before, again, rest, extra, count, falls, repeats⟩ := endless
  refine ⟨before, again, rest ++ base, extra, count, ?_, repeats⟩
  rw [← List.append_assoc]
  exact falls.append base

theorem of_falls {count : Nat} (falls : tables.Falls lookahead stack count next)
    (endless : tables.Endless lookahead next) : tables.Endless lookahead stack := by
  obtain ⟨before, again, rest, extra, more, onward, repeats⟩ := endless
  exact ⟨count + before, again, rest, extra, more, falls.trans onward, repeats⟩

/-- Reductions that come back to where they began, above it, never end. -/
theorem forever (endless : tables.Endless lookahead stack) : tables.Forever lookahead stack := by
  intro count
  obtain ⟨before, again, rest, extra, more, falls, repeats⟩ := endless
  have onward : ∃ longer above, count ≤ longer ∧
      tables.Falls lookahead again longer (again ++ above) := by
    induction count with
    | zero => exact ⟨0, [], Nat.le_refl 0, by simpa using Falls.refl again⟩
    | succ count ih =>
        obtain ⟨longer, above, le, loops⟩ := ih
        refine ⟨longer + (more + 1), extra ++ above, by omega, ?_⟩
        have round := loops.trans (repeats.append above)
        rw [List.append_assoc] at round
        exact round
  obtain ⟨longer, above, le, loops⟩ := onward
  exact (falls.trans (loops.append rest)).exists_of_le (Nat.le_trans le (Nat.le_add_left _ _))

end Endless

namespace Forever

variable {unread : List Symbol} {position : Nat}

/-- A parse with endless reductions ahead never stops. -/
theorem not_halts (forever : tables.Forever (unread.headD .endMarker) stack) (result : ParseResult) :
    ¬ Machine.Halts tables.step ⟨stack, unread, position⟩ result := by
  intro halts
  obtain ⟨count, stopped⟩ := Machine.exists_after_eq_none halts
  obtain ⟨last, falls⟩ := forever count
  cases stopped.symm.trans (falls.after_eq position)

theorem of_fall? (forever : tables.Forever lookahead stack)
    (first : tables.fall? lookahead stack = some next) : tables.Forever lookahead next := by
  intro count
  obtain ⟨last, falls⟩ := forever (count + 1)
  cases falls with
  | step again rest =>
      rw [first, Option.some.injEq] at again
      exact ⟨last, again ▸ rest⟩

theorem of_falls {count : Nat} (forever : tables.Forever lookahead stack)
    (falls : tables.Falls lookahead stack count next) : tables.Forever lookahead next := by
  induction falls with
  | refl => exact forever
  | step first _ ih => exact ih (forever.of_fall? first)

/-- A parse with endless reductions ahead reads nothing more. -/
theorem reaches (unread : List Symbol) (forever : tables.Forever (unread.headD .endMarker) stack)
    {config : Config}
    (reached : Machine.Reaches tables.step ⟨stack, unread, position⟩ config) :
    ∃ last, config = ⟨last, unread, position⟩ ∧ tables.Forever (unread.headD .endMarker) last := by
  induction reached with
  | refl => exact ⟨stack, rfl, forever⟩
  | @step middle after _ taken ih =>
      obtain ⟨last, same, onward⟩ := ih
      subst same
      obtain ⟨_, falls⟩ := onward 1
      cases falls with
      | @step _ next _ _ first _ =>
          rw [step_of_fall? unread position first, Step.next.injEq] at taken
          exact ⟨next, taken.symm, onward.of_fall? first⟩

end Forever

end Lookahead.SLR1.Tables
