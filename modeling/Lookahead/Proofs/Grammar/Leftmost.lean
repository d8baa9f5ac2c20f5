import Lookahead.Proofs.Grammar.Viable

/-!
# Leftmost derivations

A leftmost derivation always replaces the first nonterminal.  Whatever stands
after a nonterminal in a derived sequence can be derived later: when the front
yields a word, a leftmost derivation comes to the nonterminal right behind it.
-/

namespace Lookahead.Grammar

/-- Any number of steps, each of which replaces the nonterminal behind a word of terminals. -/
inductive DerivesLeftmost (grammar : Grammar) : List Symbol → List Symbol → Prop where
  | refl (symbols : List Symbol) : DerivesLeftmost grammar symbols symbols
  | step {first before after : List Symbol} {name : Name} {index : Nat} {production : Production}
      (chain : DerivesLeftmost grammar first (before ++ .nonterminal name :: after))
      (terminals : Terminals before) (found : grammar.production? name index = some production) :
      DerivesLeftmost grammar first (before ++ (production.body ++ after))

variable {grammar : Grammar}

namespace DerivesLeftmost

theorem derives {first last : List Symbol} (chain : grammar.DerivesLeftmost first last) :
    grammar.Derives first last := by
  induction chain with
  | refl => exact .refl _
  | step _ _ found ih => exact .step ih (.expand _ _ found)

theorem trans {first middle last : List Symbol} (lower : grammar.DerivesLeftmost first middle)
    (upper : grammar.DerivesLeftmost middle last) : grammar.DerivesLeftmost first last := by
  induction upper with
  | refl => exact lower
  | step _ terminals found ih => exact .step ih terminals found

/-- Behind a word of terminals, a leftmost derivation finds the word that a sequence yields. -/
theorem of_yields {symbols word : List Symbol} (before : List Symbol)
    (yields : grammar.Yields symbols word) (terminals : Terminals (before ++ word))
    (after : List Symbol) :
    grammar.DerivesLeftmost (before ++ (symbols ++ after)) (before ++ (word ++ after)) := by
  induction yields generalizing before after with
  | nil => exact .refl _
  | @input symbol rest word isInput tail ih =>
      rw [List.append_cons] at terminals
      have onward := ih (before ++ [symbol]) terminals after
      rw [List.append_assoc, List.append_assoc] at onward
      exact onward
  | @expand name index production rest front back found body tail bodyIH tailIH =>
      rw [← List.append_assoc] at terminals
      have beforeTail := (terminals_append.mp terminals).1
      have expanded : grammar.DerivesLeftmost (before ++ (.nonterminal name :: rest ++ after))
          (before ++ (production.body ++ (rest ++ after))) :=
        .step (.refl _) (terminals_append.mp beforeTail).1 found
      have inBody := bodyIH before beforeTail (rest ++ after)
      have inTail := tailIH (before ++ front) terminals after
      rw [List.append_assoc, List.append_assoc] at inTail
      rw [List.append_assoc]
      exact (expanded.trans inBody).trans inTail

end DerivesLeftmost

/--
A derivation that leaves a front before a nonterminal can be made leftmost up to that nonterminal,
with the front as a word that it yields; the rest is derived afterwards.
-/
theorem Derives.exists_leftmost {symbols whole : List Symbol} (chain : grammar.Derives symbols whole)
    {front tail word : List Symbol} {name : Name} (splits : whole = front ++ .nonterminal name :: tail)
    (yields : grammar.Yields front word) (terminals : Terminals word) :
    ∃ after, grammar.DerivesLeftmost symbols (word ++ .nonterminal name :: after) ∧
      grammar.Derives after tail := by
  induction chain generalizing front tail word name with
  | refl =>
      subst splits
      exact ⟨tail, .of_yields [] yields terminals _, .refl tail⟩
  | step _ next ih =>
      cases next with
      | @expand other index production before rest found =>
          rcases append_cons_eq_append splits.symm with
            ⟨between, isBefore, isTail⟩ | ⟨between, isFront, inRest⟩
          · -- The nonterminal stands before the one that the last step replaces.
            rw [isBefore, List.append_assoc] at ih
            obtain ⟨after, leftmost, later⟩ := ih rfl yields terminals
            exact ⟨after, leftmost, isTail ▸ .step later (.expand between rest found)⟩
          · rcases append_cons_eq_append inRest.symm with
              ⟨inBody, isBody, isTail⟩ | ⟨inAfter, isBetween, isRest⟩
            · -- It stands in the body of the last step.
              subst isFront isTail
              obtain ⟨first, second, isWord, beforeYields, bodyYields⟩ := yields.of_append
              subst isWord
              obtain ⟨after, leftmost, later⟩ := ih rfl beforeYields (terminals_append.mp terminals).1
              have expanded := leftmost.step (terminals_append.mp terminals).1 found
              rw [isBody, List.append_assoc] at expanded
              refine ⟨inBody ++ after, ?_, Derives.append (.refl inBody) later⟩
              rw [List.append_assoc]
              exact expanded.trans (.of_yields first bodyYields terminals _)
            · -- It stands after that body, which yields a part of the word.
              subst isFront isBetween isRest
              have frontYields := Yields.of_produces (.expand before inAfter found) yields
              exact ih (by simp) frontYields terminals

end Lookahead.Grammar
