import Lookahead.Proofs.Grammar.Yield

/-!
# Derivation trees

A tree records which alternative of each nonterminal a derivation uses.  Trees
side by side stand for a sequence of symbols and spell the word at their leaves;
every word that a sequence yields is spelled by some.
-/

namespace Lookahead

/-- A leaf is an input symbol; an inner node names its nonterminal and its alternative. -/
inductive Tree where
  | leaf (symbol : Symbol)
  | node (name : Name) (index : Nat) (children : List Tree)

/-- Trees that a grammar grows from the symbols of a sequence, one each, with the word they spell. -/
inductive Grammar.Grows (grammar : Grammar) : List Tree → List Symbol → List Symbol → Prop where
  | nil : Grows grammar [] [] []
  | leaf {symbol : Symbol} {trees : List Tree} {rest word : List Symbol}
      (isInput : symbol.isInput = true) (beside : Grows grammar trees rest word) :
      Grows grammar (.leaf symbol :: trees) (symbol :: rest) (symbol :: word)
  | node {name : Name} {index : Nat} {production : Production} {children trees : List Tree}
      {rest first second : List Symbol} (found : grammar.production? name index = some production)
      (below : Grows grammar children production.body first)
      (beside : Grows grammar trees rest second) :
      Grows grammar (.node name index children :: trees) (.nonterminal name :: rest)
        (first ++ second)

namespace Grammar

variable {grammar : Grammar} {trees : List Tree} {symbols word : List Symbol}

namespace Grows

/-- What trees spell is yielded by their symbols. -/
theorem yields (grows : grammar.Grows trees symbols word) : grammar.Yields symbols word := by
  induction grows with
  | nil => exact .nil
  | leaf isInput _ ih => exact .input isInput ih
  | node found _ _ belowIH besideIH => exact .expand found belowIH besideIH

theorem length_eq (grows : grammar.Grows trees symbols word) : trees.length = symbols.length := by
  induction grows with
  | nil => rfl
  | leaf _ _ ih => exact congrArg (· + 1) ih
  | node _ _ _ _ ih => exact congrArg (· + 1) ih

end Grows

/-- Every word that a sequence yields is spelled by trees. -/
theorem Yields.exists_grows (yields : grammar.Yields symbols word) :
    ∃ trees, grammar.Grows trees symbols word := by
  induction yields with
  | nil => exact ⟨[], .nil⟩
  | input isInput _ ih =>
      obtain ⟨trees, grows⟩ := ih
      exact ⟨_, .leaf isInput grows⟩
  | expand found _ _ bodyIH tailIH =>
      obtain ⟨children, below⟩ := bodyIH
      obtain ⟨trees, beside⟩ := tailIH
      exact ⟨_, .node found below beside⟩

end Grammar

end Lookahead
