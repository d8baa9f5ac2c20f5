import Lookahead.Grammar.Augment
import Lookahead.Proofs.Grammar.Viable

/-!
# What augmenting keeps

The fresh start symbol is no name of the grammar, so every other name keeps its
productions, and the augmented grammar is well formed again.
-/

namespace Lookahead

theorem length_le_freshName (taken : List Name) (candidate : Name) :
    candidate.length ≤ (freshName taken candidate).length := by
  fun_induction freshName taken candidate with
  | case1 taken candidate _ ih =>
      refine Nat.le_trans ?_ ih
      rw [String.length_append]
      exact Nat.le_add_right _ _
  | case2 => exact Nat.le_refl _

theorem freshName_not_mem (taken : List Name) (candidate : Name) :
    freshName taken candidate ∉ taken := by
  fun_induction freshName taken candidate with
  | case1 taken candidate found ih =>
      intro inside
      have longer := length_le_freshName (taken.erase candidate) (candidate ++ "'")
      have grown : (candidate ++ "'").length = candidate.length + 1 :=
        String.length_append candidate "'"
      have different : freshName (taken.erase candidate) (candidate ++ "'") ≠ candidate := by
        intro same
        rw [same, grown] at longer
        exact Nat.not_succ_le_self _ longer
      exact ih ((List.mem_erase_of_ne different).mpr inside)
  | case2 _ _ unknown => exact unknown

def primed (name : Name) : Nat → Name
  | 0 => name
  | count + 1 => primed name count ++ "'"

theorem primed_append (name : Name) (count : Nat) :
    primed (name ++ "'") count = primed name (count + 1) := by
  induction count with
  | zero => rfl
  | succ count ih => rw [primed, ih, ← primed]

/-- The search for a fresh name goes past taken names only. -/
theorem exists_freshName_eq_primed (taken : List Name) (candidate : Name) :
    ∃ count, freshName taken candidate = primed candidate count ∧
      ∀ fewer < count, primed candidate fewer ∈ taken := by
  fun_induction freshName taken candidate with
  | case1 taken candidate found ih =>
      obtain ⟨count, isPrimed, passed⟩ := ih
      refine ⟨count + 1, by rw [isPrimed, primed_append], fun fewer less => ?_⟩
      cases fewer with
      | zero => exact found
      | succ fewer =>
          have passedThere := passed fewer (Nat.lt_of_succ_lt_succ less)
          rw [primed_append] at passedThere
          exact List.mem_of_mem_erase passedThere
  | case2 => exact ⟨0, rfl, fun _ never => absurd never (Nat.not_lt_zero _)⟩

namespace Grammar

variable {grammar : Grammar}

/-- The fresh start symbol has the fewest apostrophes that give a name the grammar does not have. -/
theorem exists_freshStart_eq_primed (grammar : Grammar) :
    ∃ count, 1 ≤ count ∧ grammar.freshStart = primed grammar.start count ∧
      ∀ fewer, 1 ≤ fewer → fewer < count →
        primed grammar.start fewer ∈ grammar.nonterminals ∨
          primed grammar.start fewer ∈ grammar.terminals := by
  obtain ⟨count, isPrimed, passed⟩ :=
    exists_freshName_eq_primed grammar.takenNames (grammar.start ++ "'")
  refine ⟨count + 1, Nat.succ_pos count, ?_, fun fewer positive less => ?_⟩
  · rw [freshStart, isPrimed, primed_append]
  · have taken := passed (fewer - 1) (by omega)
    rw [primed_append, Nat.sub_add_cancel positive] at taken
    rcases List.mem_append.mp taken with isNonterminal | isTerminal
    · exact .inl (grammar.names_index ▸ isNonterminal)
    · exact .inr ((SortedSet.mem_toList _ _).mp isTerminal)

theorem freshStart_not_mem_nonterminals (grammar : Grammar) :
    grammar.freshStart ∉ grammar.nonterminals := fun inside =>
  freshName_not_mem _ _ (List.mem_append_left _ (grammar.names_index.symm ▸ inside))

theorem not_known_freshStart (grammar : Grammar) :
    ¬ grammar.Known (.nonterminal grammar.freshStart) := by
  rintro (⟨_, same⟩ | ⟨_, same, known⟩)
  · exact Symbol.noConfusion same
  · exact freshStart_not_mem_nonterminals grammar (Symbol.nonterminal.inj same ▸ known)

theorem freshStart_not_mem_terminals (grammar : Grammar) :
    grammar.freshStart ∉ grammar.terminals := fun inside =>
  freshName_not_mem _ _ (List.mem_append_right _ inside)

@[simp]
theorem start_augmented (grammar : Grammar) :
    grammar.augmented.toGrammar.start = grammar.freshStart := rfl

@[simp]
theorem nonterminals_augmented (grammar : Grammar) :
    grammar.augmented.toGrammar.nonterminals = grammar.freshStart :: grammar.nonterminals := rfl

theorem bodySymbols_augmented (grammar : Grammar) :
    grammar.augmented.toGrammar.bodySymbols =
      .nonterminal grammar.start :: grammar.bodySymbols := rfl

@[simp]
theorem terminals_augmented (grammar : Grammar) :
    grammar.augmented.toGrammar.terminals = grammar.terminals := rfl

/-- The fresh start symbol has one production, the old start symbol. -/
theorem productions_augmented_freshStart (grammar : Grammar) :
    grammar.augmented.toGrammar.productions grammar.freshStart =
      [⟨[.nonterminal grammar.start]⟩] := by
  simp [productions, rule?_eq_find?, augmented]

theorem productions_augmented {name : Name} (other : name ≠ grammar.freshStart) :
    grammar.augmented.toGrammar.productions name = grammar.productions name := by
  have different : ¬ grammar.freshStart = name := fun same => other same.symm
  simp only [productions, rule?_eq_find?, augmented, rules_indexed, List.find?_cons, different, decide_false]

theorem production?_augmented {name : Name} (other : name ≠ grammar.freshStart) (index : Nat) :
    grammar.augmented.toGrammar.production? name index = grammar.production? name index := by
  rw [production?, production?, productions_augmented other]

theorem production?_augmented_freshStart {index : Nat} {production : Production} :
    grammar.augmented.toGrammar.production? grammar.freshStart index = some production ↔
      index = 0 ∧ production = ⟨[.nonterminal grammar.start]⟩ := by
  rw [production?, productions_augmented_freshStart]
  cases index with
  | zero => simp [eq_comm]
  | succ index => simp

theorem production?_freshStart (grammar : Grammar) :
    grammar.augmented.toGrammar.production? grammar.freshStart 0 =
      some ⟨[.nonterminal grammar.start]⟩ :=
  production?_augmented_freshStart.mpr ⟨rfl, rfl⟩

theorem eq_zero_of_production?_freshStart (index : Nat) (production : Production)
    (found : grammar.augmented.toGrammar.production? grammar.freshStart index = some production) :
    index = 0 :=
  (production?_augmented_freshStart.mp found).1

/-- Every production of the grammar is one of the augmented grammar. -/
theorem production?_augmented_of_production? {name : Name} {index : Nat}
    {production : Production} (found : grammar.production? name index = some production) :
    grammar.augmented.toGrammar.production? name index = some production := by
  have known := mem_nonterminals_of_production? found
  rw [production?_augmented fun same => freshStart_not_mem_nonterminals grammar (same ▸ known)]
  exact found

/-- Well-formed grammars stay so when they are augmented. -/
theorem WellFormed.augmented (wellFormed : grammar.WellFormed) :
    grammar.augmented.toGrammar.WellFormed where
  start_defined := List.mem_cons_self
  nonterminals_nodup := List.nodup_cons.mpr
    ⟨freshStart_not_mem_nonterminals grammar, wellFormed.nonterminals_nodup⟩
  productions_ne_nil := by
    intro rule inside
    rcases List.mem_cons.mp inside with here | later
    · rw [here]
      exact List.cons_ne_nil _ _
    · exact wellFormed.productions_ne_nil rule later
  body_resolved := by
    intro symbol inside
    rw [bodySymbols_augmented] at inside
    rcases List.mem_cons.mp inside with here | later
    · exact .inr ⟨grammar.start, here, List.mem_cons_of_mem _ wellFormed.start_defined⟩
    · rcases wellFormed.body_resolved symbol later with
        ⟨name, same, unknown⟩ | ⟨name, same, known⟩
      · refine .inl ⟨name, same, ?_⟩
        intro known
        have taken : name ∈ grammar.terminals :=
          (wellFormed.mem_terminals name).mpr (same ▸ later)
        rw [nonterminals_augmented] at known
        rcases List.mem_cons.mp known with fresh | old
        · exact freshStart_not_mem_terminals grammar (fresh ▸ taken)
        · exact unknown old
      · exact .inr ⟨name, same, List.mem_cons_of_mem _ known⟩
  mem_terminals := by
    intro name
    rw [terminals_augmented, bodySymbols_augmented, wellFormed.mem_terminals, List.mem_cons]
    exact ⟨.inr, fun found => found.resolve_left Symbol.noConfusion⟩

/-- The fresh start symbol stands in no body. -/
theorem WellFormed.freshStart_not_mem_body (wellFormed : grammar.WellFormed) {name : Name}
    {index : Nat} {production : Production}
    (found : grammar.augmented.toGrammar.production? name index = some production) :
    .nonterminal grammar.freshStart ∉ production.body := by
  intro inside
  have among := mem_bodySymbols_of_production? found inside
  rw [bodySymbols_augmented] at among
  apply freshStart_not_mem_nonterminals grammar
  rcases List.mem_cons.mp among with here | later
  · rw [Symbol.nonterminal.inj here]
    exact wellFormed.start_defined
  · rcases wellFormed.body_resolved _ later with ⟨_, same, _⟩ | ⟨name, same, known⟩
    · exact Symbol.noConfusion same
    · rw [Symbol.nonterminal.inj same]
      exact known

theorem eq_nil_of_append_cons_eq_singleton {α : Type} {before after : List α} {value only : α}
    (same : before ++ value :: after = [only]) : before = [] ∧ value = only ∧ after = [] := by
  cases before with
  | nil => simpa using same
  | cons head rest => exact absurd (congrArg List.length same) (by simp)

/-- The fresh start symbol stands in nothing that the start symbol derives. -/
theorem WellFormed.ne_freshStart_of_derives (wellFormed : grammar.WellFormed) {name : Name}
    {before after : List Symbol}
    (chain : grammar.Derives [.nonterminal grammar.start] (before ++ .nonterminal name :: after)) :
    name ≠ grammar.freshStart := by
  rintro rfl
  exact freshStart_not_mem_nonterminals grammar (mem_nonterminals_of_derives wellFormed chain)

/-- Expanding the fresh start symbol, or a sequence of the grammar, gives a sequence of the grammar. -/
theorem WellFormed.derives_of_expand (wellFormed : grammar.WellFormed) {name : Name} {index : Nat}
    {production : Production} {before after : List Symbol}
    (derived : before ++ .nonterminal name :: after = [.nonterminal grammar.freshStart] ∨
      grammar.Derives [.nonterminal grammar.start] (before ++ .nonterminal name :: after))
    (found : grammar.augmented.toGrammar.production? name index = some production) :
    grammar.Derives [.nonterminal grammar.start] (before ++ (production.body ++ after)) := by
  rcases derived with isStart | chain
  · obtain ⟨isNil, isName, isEnd⟩ := eq_nil_of_append_cons_eq_singleton isStart
    rw [Symbol.nonterminal.inj isName, production?_augmented_freshStart] at found
    rw [isNil, isEnd, found.2]
    exact .refl _
  · rw [production?_augmented (wellFormed.ne_freshStart_of_derives chain)] at found
    exact chain.step (.expand before after found)

/-- Past its first step, a derivation of the augmented grammar is one of the grammar. -/
theorem WellFormed.derives_of_augmented (wellFormed : grammar.WellFormed) {symbols : List Symbol}
    (chain : grammar.augmented.toGrammar.Derives [.nonterminal grammar.freshStart] symbols) :
    symbols = [.nonterminal grammar.freshStart] ∨
      grammar.Derives [.nonterminal grammar.start] symbols := by
  induction chain with
  | refl => exact .inl rfl
  | step _ next ih =>
      cases next with
      | expand before after found => exact .inr (wellFormed.derives_of_expand ih found)

end Grammar

end Lookahead
