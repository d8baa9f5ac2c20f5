import Lookahead.LL1.Parser

/-!
# Steps of the predictive parser

What one step does with each kind of symbol on top of the stack.
-/

namespace Lookahead.LL1.Table

variable {table : Table}

theorem step_expand {name : Name} {index : Nat} {production : Production} (unread : List Symbol)
    (cell : table.get? name (unread.headD .endMarker) = some index)
    (found : table.grammar.production? name index = some production) (rest : List Symbol)
    (position : Nat) : table.step ⟨.nonterminal name :: rest, unread, position⟩ =
      .next ⟨production.body ++ rest, unread, position⟩ := by
  simp only [step, Config.lookahead, cell, found]

theorem step_match (name : Name) (rest more : List Symbol) (position : Nat) :
    table.step ⟨.terminal name :: rest, .terminal name :: more, position⟩ =
      .next ⟨rest, more, position + 1⟩ := by
  simp [step, Config.lookahead]

theorem step_endMarker (rest more : List Symbol) (position : Nat) :
    table.step ⟨.endMarker :: rest, .endMarker :: more, position⟩ =
      .halt (if more = [] then .ok () else .error (.rejected (.trailingInput (position + 1)))) := by
  cases more with
  | nil => simp [step, Config.lookahead]
  | cons head others => simp [step, Config.lookahead]

/-- An input symbol on top of the stack refuses any other lookahead symbol. -/
theorem step_refuse {top : Symbol} (isInput : top.isInput = true) (rest unread : List Symbol)
    (position : Nat) (different : unread.headD .endMarker ≠ top) :
    table.step ⟨top :: rest, unread, position⟩ = .halt
      (.error (.rejected (.mismatch top (unread.headD .endMarker) position))) := by
  have apart : ¬ top = unread.headD .endMarker := fun same => different same.symm
  rcases Symbol.eq_of_isInput isInput with ⟨name, isTerminal⟩ | isEnd
  · subst isTerminal
    exact if_neg apart
  · subst isEnd
    exact if_neg apart

theorem step_noRule {name : Name} (unread : List Symbol)
    (cell : table.get? name (unread.headD .endMarker) = none) (rest : List Symbol)
    (position : Nat) : table.step ⟨.nonterminal name :: rest, unread, position⟩ = .halt
      (.error (.rejected (.noRule name (unread.headD .endMarker) position))) := by
  simp only [step, Config.lookahead, cell]

end Lookahead.LL1.Table
