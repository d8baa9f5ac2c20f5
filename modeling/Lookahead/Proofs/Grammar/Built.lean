import Lookahead.Follow
import Lookahead.Proofs.Grammar.Augmented
import Lookahead.Proofs.Grammar.Beginning
import Lookahead.Proofs.Grammar.Faults

/-!
# Grammars that can be built

Drafts collect rules step by step, and grammars come from drafts or by
augmenting other grammars.  All of them are well formed.
-/

namespace Lookahead

inductive Draft.Collected : Draft → Prop where
  | empty (conventions : Conventions) : Collected { conventions }
  | add {draft : Draft} (lhs : Name) (alternatives : List (List Symbol))
      (before : Collected draft) : Collected (draft.add lhs alternatives)

/-- Grammars built from drafts, and those augmented from them any number of times. -/
inductive Grammar.Built : Grammar → Prop where
  | build {draft : Draft} {grammar : Grammar} (collected : draft.Collected)
      (built : draft.build = .ok grammar) : Built grammar
  | augmented {grammar : Grammar} (inner : Built grammar) : Built grammar.augmented.toGrammar

theorem exists_eq_ok_of_isOk {ε α : Type} {outcome : Except ε α} (isOk : outcome.isOk = true) :
    ∃ value, outcome = .ok value := by
  cases outcome with
  | error fault => exact absurd isOk (by simp [Except.isOk, Except.toBool])
  | ok value => exact ⟨value, rfl⟩

namespace Draft

theorem mem_map_addTo (lhs name : Name) (alternatives : List (List Symbol))
    (rules : List (Name × List (List Symbol))) :
    name ∈ (addTo lhs alternatives rules).map Prod.fst ↔
      name = lhs ∨ name ∈ rules.map Prod.fst := by
  induction rules with
  | nil => simp [addTo]
  | cons head rest ih =>
      unfold addTo
      split
      · rename_i same
        simp [same]
      · simp only [List.map_cons, List.mem_cons, ih]
        exact or_left_comm

theorem nodup_map_addTo (lhs : Name) (alternatives : List (List Symbol))
    {rules : List (Name × List (List Symbol))} (nodup : (rules.map Prod.fst).Nodup) :
    ((addTo lhs alternatives rules).map Prod.fst).Nodup := by
  induction rules with
  | nil => simp [addTo]
  | cons head rest ih =>
      rw [List.map_cons, List.nodup_cons] at nodup
      obtain ⟨headFresh, restNodup⟩ := nodup
      unfold addTo
      split
      · exact List.nodup_cons.mpr ⟨headFresh, restNodup⟩
      · rename_i different
        refine List.nodup_cons.mpr ⟨?_, ih restNodup⟩
        intro inside
        rcases (mem_map_addTo lhs head.1 alternatives rest).mp inside with same | later
        · exact different same
        · exact headFresh later

/-- A collected draft has one rule for each name. -/
theorem Collected.nodup_names {draft : Draft} (collected : draft.Collected) :
    draft.names.Nodup := by
  induction collected with
  | empty conventions => exact .nil
  | add lhs alternatives _ ih => exact nodup_map_addTo lhs alternatives ih

theorem wellFormed_of_build {draft : Draft} {grammar : Grammar} (collected : draft.Collected)
    (built : draft.build = .ok grammar) : grammar.WellFormed := by
  obtain ⟨noFaults, rfl⟩ := build_eq_ok_iff.mp built
  exact wellFormed_settled collected.nodup_names noFaults

end Draft

theorem Grammar.Built.wellFormed {grammar : Grammar} (built : grammar.Built) :
    grammar.WellFormed := by
  induction built with
  | build collected built => exact Draft.wellFormed_of_build collected built
  | augmented _ ih => exact ih.augmented

def nestedPairs : Grammar :=
  .ofRules {} [⟨"S", [⟨[.terminal "a", .nonterminal "S", .terminal "b"]⟩, ⟨[]⟩]⟩]

theorem built_nestedPairs : nestedPairs.Built :=
  .build (.add "S" [[.terminal "a", .nonterminal "S", .terminal "b"], []] (.empty {})) rfl

/-- FOLLOW sets of another grammar, in which the start symbol of nested pairs is followed by `a`. -/
def strayFollow : FollowSets := ⟨⟨[("S", .ofList [.terminal "a", .endMarker])]⟩⟩

theorem nestedPairs_productive (name : Name) (known : name ∈ nestedPairs.nonterminals) :
    nestedPairs.Productive name := by
  have isStart : name = "S" := List.mem_singleton.mp known
  have found : nestedPairs.production? "S" 1 = some ⟨[]⟩ := rfl
  subst isStart
  exact ⟨[], List.forall_mem_nil _, .of_production found⟩

end Lookahead
