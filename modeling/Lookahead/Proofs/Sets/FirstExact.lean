import Lookahead.Proofs.Grammar.Built
import Lookahead.Proofs.Sets.First

/-!
# FIRST sets are exact

FIRST of a sequence holds the input symbols with which derived sequences begin,
the empty-word symbol where the sequence derives the empty word, and nothing
else.  Derivations do not depend on the order in which rules and alternatives
are defined, so neither do the sets.
-/

namespace Lookahead

theorem SetFamily.firstOf_ofSymbols (family : SetFamily) (symbols : List Symbol) :
    family.firstOf (Production.ofSymbols symbols).body = family.firstOf symbols := by
  induction symbols with
  | nil => rfl
  | cons head rest ih =>
      cases head with
      | epsilon => exact ih
      | terminal name => rfl
      | endMarker => rfl
      | nonterminal name =>
          apply SortedSet.ext
          intro symbol
          rw [mem_firstOf_nonterminal, ← ih, ← mem_firstOf_nonterminal]
          rfl

namespace Grammar

/--
A set is FIRST of a sequence.  In the sequence the empty-word symbol stands for nothing; in the
set it says that the empty word is derived.
-/
structure IsFirst (grammar : Grammar) (symbols : List Symbol) (set : SymbolSet) : Prop where
  input : ∀ symbol, symbol.isInput = true →
    (symbol ∈ set ↔ ∃ rest, grammar.Derives (Production.ofSymbols symbols).body (symbol :: rest))
  epsilon : .epsilon ∈ set ↔ grammar.Derives (Production.ofSymbols symbols).body []
  only : ∀ symbol ∈ set, symbol.isInput = true ∨ symbol = .epsilon

/-- Two grammars have the same alternatives for each name, in whatever order they are defined. -/
def SameAlternatives (first second : Grammar) : Prop :=
  ∀ name production, production ∈ first.productions name ↔ production ∈ second.productions name

variable {grammar other : Grammar}

theorem SameAlternatives.symm (same : grammar.SameAlternatives other) :
    other.SameAlternatives grammar :=
  fun name production => (same name production).symm

theorem SameAlternatives.derives (same : grammar.SameAlternatives other)
    {symbols last : List Symbol} (chain : grammar.Derives symbols last) :
    other.Derives symbols last := by
  refine Derives.of_productions (fun name index production found => ?_) chain
  exact List.mem_iff_getElem?.mp ((same name production).mp (List.mem_of_getElem? found))

theorem SameAlternatives.derives_iff (same : grammar.SameAlternatives other)
    (symbols last : List Symbol) : other.Derives symbols last ↔ grammar.Derives symbols last :=
  ⟨same.symm.derives, same.derives⟩

namespace IsFirst

variable {symbols : List Symbol} {first second : SymbolSet}

/-- There is one FIRST set of a sequence. -/
theorem unique (one : grammar.IsFirst symbols first) (another : grammar.IsFirst symbols second) :
    first = second := by
  apply SortedSet.ext
  intro symbol
  by_cases isInput : symbol.isInput = true
  · exact (one.input symbol isInput).trans (another.input symbol isInput).symm
  · by_cases isEpsilon : symbol = .epsilon
    · rw [isEpsilon, one.epsilon, another.epsilon]
    · constructor
      · intro inside
        exact absurd (one.only symbol inside) (by simp [isInput, isEpsilon])
      · intro inside
        exact absurd (another.only symbol inside) (by simp [isInput, isEpsilon])

/-- FIRST grows with what is derived. -/
theorem subset (derives : ∀ last, grammar.Derives (Production.ofSymbols symbols).body last →
      other.Derives (Production.ofSymbols symbols).body last)
    (one : grammar.IsFirst symbols first) (another : other.IsFirst symbols second) :
    first ⊆ second := by
  intro symbol inside
  rcases one.only symbol inside with isInput | isEpsilon
  · obtain ⟨rest, chain⟩ := (one.input symbol isInput).mp inside
    exact (another.input symbol isInput).mpr ⟨rest, derives _ chain⟩
  · rw [isEpsilon] at inside ⊢
    exact another.epsilon.mpr (derives _ (one.epsilon.mp inside))

theorem of_sameAlternatives (same : grammar.SameAlternatives other)
    (isFirst : other.IsFirst symbols first) : grammar.IsFirst symbols first where
  input := by
    intro symbol isInput
    simp only [isFirst.input symbol isInput, same.derives_iff]
  epsilon := by rw [isFirst.epsilon, same.derives_iff]
  only := isFirst.only

end IsFirst

theorem inFirst_of_isInput {symbol : Symbol} (isInput : symbol.isInput = true)
    (symbols : List Symbol) :
    grammar.InFirst symbols symbol ↔ ∃ rest, grammar.Derives symbols (symbol :: rest) := by
  have solid := ne_epsilon_of_isInput isInput
  simp [InFirst, solid, leads_iff, isInput]

theorem inFirst_epsilon (symbols : List Symbol) :
    grammar.InFirst symbols .epsilon ↔ grammar.Derives symbols [] := by
  simp [InFirst, yields_iff]

/-- FIRST of a sequence by the computed sets is its FIRST set. -/
theorem isFirst_ofSequence (wellFormed : grammar.WellFormed) (symbols : List Symbol) :
    grammar.IsFirst symbols (grammar.firstSets.ofSequence symbols) := by
  have inFirst : ∀ symbol, symbol ∈ grammar.firstSets.ofSequence symbols ↔
      grammar.InFirst (Production.ofSymbols symbols).body symbol := by
    intro symbol
    rw [FirstSets.ofSequence, ← SetFamily.firstOf_ofSymbols]
    exact mem_ofSequence_iff_inFirst wellFormed (Production.epsilon_not_mem_ofSymbols symbols) symbol
  refine ⟨?_, ?_, ?_⟩
  · intro symbol isInput
    rw [inFirst, inFirst_of_isInput isInput]
  · rw [inFirst, inFirst_epsilon]
  · intro symbol inside
    rcases (inFirst symbol).mp inside with ⟨isEpsilon, _⟩ | ⟨_, leads⟩
    · exact .inr isEpsilon
    · exact .inl (leads.isInput symbol List.mem_cons_self)

/-- The set of a nonterminal is FIRST of the nonterminal alone. -/
theorem get?_nonterminal_firstSets {name : Name} (known : name ∈ grammar.nonterminals) :
    grammar.firstSets.get? (.nonterminal name) =
      some (grammar.firstSets.ofSequence [.nonterminal name]) := by
  obtain ⟨set, found⟩ := Option.ne_none_iff_exists'.mp (get?_firstComputation_ne_none known)
  rw [FirstSets.get?, FirstSets.ofSequence, firstSets, found, Option.some.injEq]
  apply SortedSet.ext
  intro symbol
  rw [SetFamily.mem_firstOf_nonterminal, SetFamily.mem_firstOf_nil, SetFamily.get_eq_of_get? found]
  by_cases isEpsilon : symbol = .epsilon
  · simp [isEpsilon]
  · simp [isEpsilon]

theorem get?_nonterminal_firstSets_eq_none {name : Name} (unknown : name ∉ grammar.nonterminals) :
    grammar.firstSets.get? (.nonterminal name) = none :=
  Decidable.byContradiction fun defined =>
    unknown ((get?_firstComputation_ne_none_iff grammar name).mp defined)

theorem get?_nonterminal_firstSets_eq_ite (grammar : Grammar) (name : Name) :
    grammar.firstSets.get? (.nonterminal name) =
      if name ∈ grammar.nonterminals then some (grammar.firstSets.ofSequence [.nonterminal name])
      else none := by
  split
  · rename_i known
    exact get?_nonterminal_firstSets known
  · rename_i unknown
    exact get?_nonterminal_firstSets_eq_none unknown

/--
The computed FIRST sets are exact: those of sequences, whatever symbols stand in them, and those of
the nonterminals.  Grammars that define the same alternatives in another order have the same sets.
-/
theorem firstSets_exact (built : grammar.Built) :
    (∀ symbols, grammar.IsFirst symbols (grammar.firstSets.ofSequence symbols)) ∧
      (∀ name ∈ grammar.nonterminals, ∃ set,
        grammar.firstSets.get? (.nonterminal name) = some set ∧
          grammar.IsFirst [.nonterminal name] set) ∧
      ∀ other : Grammar, other.Built → grammar.SameAlternatives other → ∀ symbols,
        other.firstSets.ofSequence symbols = grammar.firstSets.ofSequence symbols := by
  have isFirst := isFirst_ofSequence built.wellFormed
  refine ⟨isFirst, ?_, ?_⟩
  · intro name known
    exact ⟨_, get?_nonterminal_firstSets known, isFirst _⟩
  · intro other otherBuilt same symbols
    have isFirstThere := isFirst_ofSequence otherBuilt.wellFormed symbols
    exact (isFirstThere.of_sameAlternatives same).unique (isFirst symbols)

def nestedPairsReordered : Grammar :=
  .ofRules {} [⟨"S", [⟨[]⟩, ⟨[.terminal "a", .nonterminal "S", .terminal "b"]⟩]⟩]

theorem built_nestedPairsReordered : nestedPairsReordered.Built :=
  .build (.add "S" [[], [.terminal "a", .nonterminal "S", .terminal "b"]] (.empty {})) rfl

theorem sameAlternatives_nestedPairsReordered :
    nestedPairs.SameAlternatives nestedPairsReordered := by
  intro name production
  by_cases isStart : "S" = name
  · simp [productions, rule?_eq_find?, ofRules, nestedPairs, nestedPairsReordered, isStart, or_comm]
  · simp [productions, rule?_eq_find?, ofRules, nestedPairs, nestedPairsReordered, isStart]

theorem firstSets_exact_nestedPairs :
    nestedPairs.IsFirst [.epsilon, .nonterminal "S", .endMarker, .nonterminal "U"]
        (.ofList [.terminal "a", .endMarker]) ∧
      (∃ set, nestedPairs.firstSets.get? (.nonterminal "S") = some set ∧
        nestedPairs.IsFirst [.nonterminal "S"] set) ∧
      nestedPairsReordered.firstSets.ofSequence [.nonterminal "S"] =
        nestedPairs.firstSets.ofSequence [.nonterminal "S"] := by
  obtain ⟨ofSequences, ofNames, inAnyOrder⟩ := firstSets_exact built_nestedPairs
  have begins : nestedPairs.firstSets.ofSequence
      [.epsilon, .nonterminal "S", .endMarker, .nonterminal "U"] =
        .ofList [.terminal "a", .endMarker] := by
    decide +kernel
  exact ⟨begins ▸ ofSequences _, ofNames "S" List.mem_cons_self,
    inAnyOrder _ built_nestedPairsReordered sameAlternatives_nestedPairsReordered _⟩

end Grammar

end Lookahead
