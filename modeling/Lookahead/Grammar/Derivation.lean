import Lookahead.Grammar.Basic

/-!
# Derivations

What a grammar derives, as chains of steps that each replace one nonterminal by
one of its bodies.  A sequence derives what its parts derive, side by side.
-/

namespace Lookahead

/-- A symbol in a sequence of two parts is in the first of them or in the second. -/
theorem append_cons_eq_append {α : Type} {before after left right : List α} {middle : α}
    (same : before ++ middle :: after = left ++ right) :
    (∃ between, left = before ++ middle :: between ∧ after = between ++ right) ∨
      ∃ between, before = left ++ between ∧ right = between ++ middle :: after := by
  rcases List.append_eq_append_iff.mp same with ⟨between, isLeft, isRest⟩ | inRight
  · cases between with
    | nil =>
        rw [List.append_nil] at isLeft
        exact .inr ⟨[], by rw [isLeft, List.append_nil], isRest.symm⟩
    | cons head others =>
        obtain ⟨isHead, isAfter⟩ := List.cons.inj isRest
        exact .inl ⟨others, isHead ▸ isLeft, isAfter⟩
  · exact .inr inRight

namespace Grammar

/-- One step: a nonterminal is replaced by one of its bodies. -/
inductive Produces (grammar : Grammar) : List Symbol → List Symbol → Prop where
  | expand {name : Name} {index : Nat} {production : Production} (before after : List Symbol)
      (found : grammar.production? name index = some production) :
      Produces grammar (before ++ .nonterminal name :: after)
        (before ++ (production.body ++ after))

inductive Derives (grammar : Grammar) : List Symbol → List Symbol → Prop where
  | refl (symbols : List Symbol) : Derives grammar symbols symbols
  | step {first middle last : List Symbol} (chain : Derives grammar first middle)
      (next : Produces grammar middle last) : Derives grammar first last

namespace Produces

theorem append_left {grammar : Grammar} {first second : List Symbol} (left : List Symbol)
    (step : Produces grammar first second) : Produces grammar (left ++ first) (left ++ second) := by
  cases step with
  | expand before after found =>
      simpa only [List.append_assoc] using Produces.expand (left ++ before) after found

theorem append_right {grammar : Grammar} {first second : List Symbol} (right : List Symbol)
    (step : Produces grammar first second) :
    Produces grammar (first ++ right) (second ++ right) := by
  cases step with
  | expand before after found =>
      simpa only [List.append_assoc, List.cons_append] using
        Produces.expand before (after ++ right) found

/-- A step in a sequence of two parts is a step in one of them. -/
theorem of_append {grammar : Grammar} {left right result : List Symbol}
    (step : Produces grammar (left ++ right) result) :
    (∃ after, Produces grammar left after ∧ result = after ++ right) ∨
      ∃ after, Produces grammar right after ∧ result = left ++ after := by
  generalize whole : left ++ right = symbols at step
  cases step with
  | @expand name index production before after found =>
      rcases append_cons_eq_append whole.symm with ⟨middle, isLeft, isAfter⟩ | ⟨middle, isBefore, isRight⟩
      · refine .inl ⟨before ++ (production.body ++ middle), ?_, ?_⟩
        · exact isLeft ▸ Produces.expand before middle found
        · rw [isAfter, List.append_assoc, List.append_assoc]
      · refine .inr ⟨middle ++ (production.body ++ after), ?_, ?_⟩
        · exact isRight ▸ Produces.expand middle after found
        · rw [isBefore, List.append_assoc]

end Produces

namespace Derives

theorem single {grammar : Grammar} {first second : List Symbol}
    (step : Produces grammar first second) : Derives grammar first second :=
  .step (.refl first) step

theorem trans {grammar : Grammar} {first middle last : List Symbol}
    (lower : Derives grammar first middle) (upper : Derives grammar middle last) :
    Derives grammar first last := by
  induction upper with
  | refl => exact lower
  | step _ next ih => exact .step ih next

theorem append {grammar : Grammar} {first second third fourth : List Symbol}
    (left : Derives grammar first second) (right : Derives grammar third fourth) :
    Derives grammar (first ++ third) (second ++ fourth) := by
  have leftPart : Derives grammar (first ++ third) (second ++ third) := by
    induction left with
    | refl => exact .refl _
    | step _ next ih => exact .step ih (next.append_right third)
  refine leftPart.trans ?_
  induction right with
  | refl => exact .refl _
  | step _ next ih => exact .step ih (next.append_left second)

/-- What a sequence of two parts derives is what they derive, side by side. -/
theorem of_append {grammar : Grammar} {left right result : List Symbol}
    (chain : Derives grammar (left ++ right) result) :
    ∃ first second, result = first ++ second ∧ Derives grammar left first ∧
      Derives grammar right second := by
  generalize whole : left ++ right = symbols at chain
  induction chain with
  | refl => exact ⟨left, right, whole.symm, .refl left, .refl right⟩
  | step _ next ih =>
      obtain ⟨first, second, same, leftChain, rightChain⟩ := ih
      subst same
      rcases next.of_append with ⟨after, step, same⟩ | ⟨after, step, same⟩
      · exact ⟨after, second, same, .step leftChain step, rightChain⟩
      · exact ⟨first, after, same, leftChain, .step rightChain step⟩

/-- A production derives its body from its nonterminal. -/
theorem of_production {grammar : Grammar} {name : Name} {index : Nat} {production : Production}
    (found : grammar.production? name index = some production) :
    Derives grammar [.nonterminal name] production.body := by
  have step := Produces.expand [] [] found
  rw [List.nil_append, List.nil_append, List.append_nil] at step
  exact single step

/-- A grammar derives whatever one derives whose productions it has, at whatever places. -/
theorem of_productions {grammar other : Grammar}
    (included : ∀ name index production, grammar.production? name index = some production →
      ∃ place, other.production? name place = some production)
    {first last : List Symbol} (chain : Derives grammar first last) : Derives other first last := by
  induction chain with
  | refl => exact .refl _
  | step _ next ih =>
      cases next with
      | expand before after found =>
          obtain ⟨place, foundThere⟩ := included _ _ _ found
          exact ih.step (.expand before after foundThere)

end Derives

end Grammar

end Lookahead
