import Lookahead.Proofs.LL1.Deciding
import Lookahead.Proofs.LL1.Determined
import Lookahead.Proofs.SLR1.Deciding

/-!
# Classes without ambiguity

A grammar that admits a parser of either kind has one derivation tree at most for
each word: a predictive table tells the alternatives by the next symbol, and a
shift-reduce parse of the word grows whatever tree it has.
-/

namespace Lookahead

/-- The parse of a word grows every derivation tree of it. -/
theorem SLR1.Tables.Fits.halts_grow {tables : SLR1.Tables} {grammar : Grammar}
    (fits : tables.Fits grammar) {word : List Symbol} {tree : Tree}
    (grows : grammar.Grows [tree] [.nonterminal grammar.start] word) :
    Machine.Halts tables.grow ⟨⟨[0], word ++ [.endMarker], 0⟩, []⟩ [tree] := by
  obtain ⟨stack, moved, spells⟩ := fits.exists_reaches_of_grows grows .nil
    (SLR1.valid_start grammar).append_nil [.endMarker] fits.closed.followed_start 0 []
  apply moved.halts
  apply Machine.Halts.halt
  simp only [SLR1.Tables.grow, fits.accept spells]
  rfl

namespace Grammar

variable {grammar : Grammar} {word : List Symbol}

/-- A word of terminals is derived exactly when it has a derivation tree. -/
theorem derives_iff_exists_tree (terminals : Terminals word) :
    grammar.Derives [.nonterminal grammar.start] word ↔
      ∃ tree, grammar.Grows [tree] [.nonterminal grammar.start] word := by
  constructor
  · intro chain
    obtain ⟨trees, grows⟩ :=
      ((yields_iff grammar _ word).mpr ⟨chain, terminals.isInput⟩).exists_grows
    obtain ⟨tree, isSingle⟩ := List.length_eq_one_iff.mp grows.length_eq
    exact ⟨tree, isSingle ▸ grows⟩
  · rintro ⟨tree, grows⟩
    exact grows.yields.derives

/--
A grammar in one of the classes is unambiguous: words that it derives have one derivation tree,
and other words have none.
-/
theorem unambiguous (built : grammar.Built)
    (classed : grammar.analysis.isLL1 = true ∨ grammar.analysis.isSLR1 = true)
    (terminals : Terminals word) :
    (grammar.Derives [.nonterminal grammar.start] word ↔
        ∃ tree, grammar.Grows [tree] [.nonterminal grammar.start] word) ∧
      ∀ tree other, grammar.Grows [tree] [.nonterminal grammar.start] word →
        grammar.Grows [other] [.nonterminal grammar.start] word → tree = other := by
  refine ⟨derives_iff_exists_tree terminals, fun tree other one another => ?_⟩
  rcases classed with isLL1 | isSLR1
  · obtain ⟨table, ok⟩ := exists_eq_ok_of_isOk isLL1
    exact (LL1.Table.fits_of_built built ok).tree_unique one another
  · obtain ⟨tables, ok⟩ := exists_eq_ok_of_isOk isSLR1
    have fits := SLR1.Tables.fits_of_built built ok
    exact List.singleton_inj.mp ((fits.halts_grow one).unique (fits.halts_grow another))

theorem unambiguous_nestedPairs :
    nestedPairs.Grows
        [.node "S" 0 [.leaf (.terminal "a"), .node "S" 1 [], .leaf (.terminal "b")]]
        [.nonterminal "S"] [.terminal "a", .terminal "b"] ∧
      ∀ other, nestedPairs.Grows [other] [.nonterminal "S"] [.terminal "a", .terminal "b"] →
        .node "S" 0 [.leaf (.terminal "a"), .node "S" 1 [], .leaf (.terminal "b")] = other := by
  have outer : nestedPairs.production? "S" 0 =
    some ⟨[.terminal "a", .nonterminal "S", .terminal "b"]⟩ := rfl
  have inner : nestedPairs.production? "S" 1 = some ⟨[]⟩ := rfl
  have grows : nestedPairs.Grows
      [.node "S" 0 [.leaf (.terminal "a"), .node "S" 1 [], .leaf (.terminal "b")]]
      [.nonterminal "S"] [.terminal "a", .terminal "b"] :=
    .node outer (.leaf rfl (.node inner .nil (.leaf rfl .nil))) .nil
  have terminals : Terminals [.terminal "a", .terminal "b"] := by
    simp [Terminals]
  exact ⟨grows, fun other =>
    (unambiguous built_nestedPairs (.inl LL1.Table.isLL1_nestedPairs) terminals).2 _ other grows⟩

end Grammar

end Lookahead
