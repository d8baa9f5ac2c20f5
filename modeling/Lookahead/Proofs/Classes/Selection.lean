import Mathlib.Data.List.NodupEquivFin
import Lookahead.Proofs.Classes.Agreement
import Lookahead.Proofs.SLR1.Deciding
import Lookahead.Proofs.SLR1.Moves

/-!
# Grammars with fewer alternatives

A part of a grammar keeps some alternatives of each rule.  All that it derives the
whole derives too, so its sets are smaller, and whatever calls for a move in the
part calls for the move in the whole that the place of the alternative gives.  So
the part stays in the classes that the whole is in.
-/

namespace Lookahead.Grammar

/--
Every production of the part is one of the whole, at a place that no other production of the same
name is at.
-/
structure Selects (part whole : Grammar) (place : Name → Nat → Nat) : Prop where
  start : part.start = whole.start
  found : ∀ name index production, part.production? name index = some production →
    whole.production? name (place name index) = some production
  injective : ∀ name index other, place name index = place name other → index = other

variable {part whole : Grammar} {place : Name → Nat → Nat} {name : Name} {symbols last : List Symbol}

theorem WellFormed.exists_production? {grammar : Grammar} (wellFormed : grammar.WellFormed)
    (known : name ∈ grammar.nonterminals) :
    ∃ production, grammar.production? name 0 = some production := by
  obtain ⟨rule, inside, isName⟩ := List.mem_map.mp known
  obtain ⟨production, others, isCons⟩ :=
    List.exists_cons_of_ne_nil (wellFormed.productions_ne_nil rule inside)
  refine ⟨production, production?_eq_some_iff.mpr ⟨rule, ?_, by rw [isCons]; rfl⟩⟩
  exact isName ▸ rule?_of_mem wellFormed.nonterminals_nodup inside

namespace Selects

theorem derives (selects : part.Selects whole place) (chain : part.Derives symbols last) :
    whole.Derives symbols last :=
  chain.of_productions fun name index production found =>
    ⟨place name index, selects.found name index production found⟩

theorem mem_nonterminals (selects : part.Selects whole place) (partFormed : part.WellFormed)
    (known : name ∈ part.nonterminals) : name ∈ whole.nonterminals := by
  obtain ⟨production, found⟩ := partFormed.exists_production? known
  exact mem_nonterminals_of_production? (selects.found name 0 production found)

theorem follows (selects : part.Selects whole place) (partFormed : part.WellFormed)
    {symbol : Symbol} (follows : part.Follows name symbol) : whole.Follows name symbol := by
  cases follows with
  | endMarker before chain =>
      rw [selects.start] at chain
      exact .endMarker before (selects.derives chain)
  | terminal before after known chain =>
      exact .terminal before after (selects.mem_nonterminals partFormed known) (selects.derives chain)

section Sets

variable (selects : part.Selects whole place) (partFormed : part.WellFormed)
  (wholeFormed : whole.WellFormed)
include selects partFormed wholeFormed

theorem first_subset (symbols : List Symbol) :
    part.firstSets.ofSequence symbols ⊆ whole.firstSets.ofSequence symbols :=
  (isFirst_ofSequence partFormed symbols).subset (fun _ chain => selects.derives chain)
    (isFirst_ofSequence wholeFormed symbols)

theorem follow_subset (name : Name) : part.follow.get name ⊆ whole.follow.get name := by
  intro symbol inside
  rw [mem_follow_iff wholeFormed]
  exact selects.follows partFormed ((mem_follow_iff partFormed).mp inside)

theorem opens {symbol : Symbol}
    (opens : part.firstSets.Opens (· ∈ part.follow.get name) symbols symbol) :
    whole.firstSets.Opens (· ∈ whole.follow.get name) symbols symbol := by
  have included := selects.first_subset partFormed wholeFormed symbols
  rcases opens with ⟨inside, solid⟩ | ⟨vanishes, comes⟩
  · exact .inl ⟨included symbol inside, solid⟩
  · exact .inr ⟨included .epsilon vanishes,
      selects.follow_subset partFormed wholeFormed name symbol comes⟩

/-- Symbols that tell the alternatives of the whole apart tell those of the part apart. -/
theorem opensApart (apart : whole.OpensApart name) : part.OpensApart name := by
  intro lookahead index other one another found otherFound opens otherOpens
  apply selects.injective name
  exact apart lookahead _ _ one another (selects.found _ _ _ found) (selects.found _ _ _ otherFound)
    (selects.opens partFormed wholeFormed opens) (selects.opens partFormed wholeFormed otherOpens)

theorem isLL1 (isLL1 : whole.analysis.isLL1 = true) : part.analysis.isLL1 = true := by
  have apart := (isLL1_iff wholeFormed).mp isLL1
  exact (isLL1_iff partFormed).mpr fun name => selects.opensApart partFormed wholeFormed (apart name)

theorem isSLR1 (isSLR1 : whole.analysis.isSLR1 = true) : part.analysis.isSLR1 = true :=
  SLR1.isSLR1_of_places selects.start (fun _ name index production _ found =>
      selects.found name index production found)
    partFormed wholeFormed selects.injective
    (fun _ name _ => selects.follow_subset partFormed wholeFormed name) isSLR1

end Sets

end Selects

/-- The same names in the same conventions, each with some of its alternatives, in their order. -/
structure PartOf (part whole : Grammar) : Prop where
  conventions : part.conventions = whole.conventions
  names : ∀ name, name ∈ part.nonterminals ↔ name ∈ whole.nonterminals
  alternatives : ∀ name, (part.productions name).Sublist (whole.productions name)

theorem PartOf.exists_selects (partOf : part.PartOf whole) : ∃ place, part.Selects whole place := by
  have embeds := fun name =>
    List.sublist_iff_exists_orderEmbedding_getElem?_eq.mp (partOf.alternatives name)
  refine ⟨fun name => (embeds name).choose, ?_, ?_, ?_⟩
  · rw [start, start, partOf.conventions]
  · intro name index production found
    exact ((embeds name).choose_spec index).symm.trans found
  · intro name index other same
    exact (embeds name).choose.injective same

/--
A grammar with fewer alternatives has smaller FIRST and FOLLOW sets, a predictive table without
conflicts if the larger one has, and shift-reduce tables without conflicts if the larger one has.
-/
theorem classes_of_partOf (partBuilt : part.Built) (wholeBuilt : whole.Built)
    (partOf : part.PartOf whole) :
    (∀ name ∈ whole.nonterminals,
      (∃ smaller larger, part.firstSets.get? (.nonterminal name) = some smaller ∧
        whole.firstSets.get? (.nonterminal name) = some larger ∧ smaller ⊆ larger) ∧
      ∃ smaller larger, part.follow.get? name = some smaller ∧
        whole.follow.get? name = some larger ∧ smaller ⊆ larger) ∧
    (whole.analysis.isLL1 = true → part.analysis.isLL1 = true) ∧
    (whole.analysis.isSLR1 = true → part.analysis.isSLR1 = true) := by
  have partFormed := partBuilt.wellFormed
  have wholeFormed := wholeBuilt.wellFormed
  obtain ⟨place, selects⟩ := partOf.exists_selects
  refine ⟨fun name known => ⟨?_, ?_⟩, ?_, ?_⟩
  · have knownInPart := (partOf.names name).mpr known
    exact ⟨_, _, get?_nonterminal_firstSets knownInPart, get?_nonterminal_firstSets known,
      selects.first_subset partFormed wholeFormed _⟩
  · have knownInPart := (partOf.names name).mpr known
    exact ⟨_, _, get?_follow partFormed knownInPart, get?_follow wholeFormed known,
      selects.follow_subset partFormed wholeFormed name⟩
  · exact selects.isLL1 partFormed wholeFormed
  · exact selects.isSLR1 partFormed wholeFormed

/-- The grammar of nested pairs without the alternative that adds a pair. -/
def noPairs : Grammar :=
  .ofRules {} [⟨"S", [⟨[]⟩]⟩]

theorem built_noPairs : noPairs.Built := .build (.add "S" [[]] (.empty {})) rfl

theorem noPairs_partOf : noPairs.PartOf nestedPairs where
  conventions := rfl
  names := fun _ => Iff.rfl
  alternatives := by
    intro name
    by_cases isStart : "S" = name
    · simp [productions, rule?_eq_find?, ofRules, noPairs, nestedPairs, isStart]
    · simp [productions, rule?_eq_find?, ofRules, noPairs, nestedPairs, isStart]

theorem classes_noPairs : noPairs.analysis.isLL1 = true ∧ noPairs.analysis.isSLR1 = true ∧
    ∃ smaller larger, noPairs.follow.get? "S" = some smaller ∧
      nestedPairs.follow.get? "S" = some larger ∧ smaller ⊆ larger := by
  obtain ⟨sets, predictive, shiftReduce⟩ :=
    classes_of_partOf built_noPairs built_nestedPairs noPairs_partOf
  exact ⟨predictive LL1.Table.isLL1_nestedPairs, shiftReduce SLR1.Tables.isSLR1_nestedPairs,
    (sets "S" List.mem_cons_self).2⟩

end Grammar

end Lookahead
