import Lookahead.Proofs.Grammar.Beginning
import Lookahead.Proofs.Grammar.Leftmost
import Lookahead.Proofs.LL1.Deciding
import Lookahead.Proofs.Sets.FollowExact

/-!
# Choices in leftmost derivations

A grammar is predictable when in every leftmost derivation the next symbol tells
the alternatives of the nonterminal that is next apart.  Where all nonterminals
are of use, these are exactly the grammars whose predictive table has no
conflicts: each clash in a cell comes up in some derivation.
-/

namespace Lookahead.Grammar

variable {grammar : Grammar}

/--
Behind the words of leftmost derivations, two alternatives of a nonterminal never lead to inputs
that begin with the same symbol.
-/
def Predictable (grammar : Grammar) : Prop :=
  ∀ (word after left right : List Symbol) (name : Name) (index other : Nat) (one another : Production),
    Terminals word →
    grammar.DerivesLeftmost [.nonterminal grammar.start, .endMarker]
      (word ++ .nonterminal name :: after) →
    grammar.production? name index = some one → grammar.production? name other = some another →
    index ≠ other → Terminals left → Terminals right →
    grammar.Derives (one.body ++ after) (left ++ [.endMarker]) →
    grammar.Derives (another.body ++ after) (right ++ [.endMarker]) →
    (left ++ [Symbol.endMarker]).head? ≠ (right ++ [Symbol.endMarker]).head?

/-- An alternative can be opened by the first symbol of any input that it leads to. -/
theorem opens_of_derives (wellFormed : grammar.WellFormed) {before after left : List Symbol}
    {name : Name} {index : Nat} {production : Production}
    (chain : grammar.Derives [.nonterminal grammar.start, .endMarker]
      (before ++ .nonterminal name :: after))
    (found : grammar.production? name index = some production) (terminals : Terminals left)
    (derives : grammar.Derives (production.body ++ after) (left ++ [.endMarker])) :
    grammar.firstSets.Opens (· ∈ grammar.follow.get name) production.body
      ((left ++ [Symbol.endMarker]).headD .endMarker) := by
  have closed := setsClosed wellFormed
  have follows := ((followed_append _ _).mp (closed.followed_of_derives chain)).2.1
  have inputs : ∀ symbol ∈ left ++ [.endMarker], symbol.isInput = true :=
    List.forall_mem_append.mpr ⟨terminals.isInput, by simp [Symbol.isInput]⟩
  obtain ⟨first, second, splits, bodyYields, afterYields⟩ :=
    ((yields_iff grammar _ _).mpr ⟨derives, inputs⟩).of_append
  cases second with
  | nil =>
      have inBody := bodyYields.terminals wellFormed (Known.of_body wellFormed found)
      rw [List.append_nil] at splits
      exact absurd (splits ▸ List.mem_append_right left List.mem_cons_self) inBody.endMarker_not_mem
  | cons head rest =>
      have comes : head ∈ grammar.follow.get name :=
        follows head (closed.opens_of_leads afterYields.leads)
      rw [splits]
      exact closed.opens_append_of_yields bodyYields comes

/-- What is derived from the start symbol and the end marker behind a word ends in the marker. -/
theorem exists_left_of_yields (wellFormed : grammar.WellFormed) {word symbols input : List Symbol}
    (chain : grammar.Derives [.nonterminal grammar.start, .endMarker] (word ++ symbols))
    (terminals : Terminals word) (yields : grammar.Yields symbols input) :
    ∃ left, input = left ++ [.endMarker] ∧ Terminals left := by
  obtain ⟨front, isWhole, inner⟩ :=
    (chain.trans (Derives.append (.refl word) yields.derives)).exists_front
  rcases List.eq_nil_or_concat input with isNil | ⟨left, last, isConcat⟩
  · rw [isNil, List.append_nil] at isWhole
    exact absurd (isWhole ▸ List.mem_append_right front List.mem_cons_self) terminals.endMarker_not_mem
  · rw [isConcat, List.concat_eq_append, ← List.append_assoc] at isWhole
    obtain ⟨isFront, isLast⟩ := List.append_inj' isWhole rfl
    refine ⟨left, by rw [isConcat, List.concat_eq_append, isLast], ?_⟩
    have known := Known.of_derives wellFormed inner (Known.start wellFormed)
    apply terminals_of_isInput
    · exact fun symbol inside => yields.isInput symbol (by rw [isConcat]; simp [inside])
    · intro inside
      exact (known .endMarker (isFront ▸ List.mem_append_right word inside)).ne_endMarker rfl

/-- Where all nonterminals are reachable, what follows one does so in what the start derives. -/
theorem Follows.exists_derives (reachable : ∀ name ∈ grammar.nonterminals, grammar.Reachable name)
    {name : Name} {symbol : Symbol} (follows : grammar.Follows name symbol) :
    ∃ front tail, symbol.isInput = true ∧
      grammar.Derives [.nonterminal grammar.start, .endMarker]
        (front ++ .nonterminal name :: symbol :: tail) := by
  rcases follows.fromStart_or_leaks with ⟨isInput, front, tail, chain⟩ | ⟨_, root, known, never, _⟩
  · exact ⟨front, tail, isInput, chain⟩
  · exact absurd (reachable root known) never

section Useful

variable (wellFormed : grammar.WellFormed)
  (productive : ∀ name ∈ grammar.nonterminals, grammar.Productive name)
include wellFormed productive

/-- A leftmost derivation comes to each nonterminal of a derived sequence, with a word for the rest. -/
theorem exists_context_of_derives {front tail : List Symbol} {name : Name}
    (chain : grammar.Derives [.nonterminal grammar.start, .endMarker]
      (front ++ .nonterminal name :: tail)) :
    ∃ word after rest, Terminals word ∧
      grammar.DerivesLeftmost [.nonterminal grammar.start, .endMarker]
        (word ++ .nonterminal name :: after) ∧
      grammar.Yields tail rest ∧ grammar.Yields after rest := by
  obtain ⟨whole, isWhole, inner⟩ := chain.exists_front
  have known := Known.of_derives wellFormed inner (Known.start wellFormed)
  rcases append_cons_eq_append isWhole with ⟨between, isInner, isTail⟩ | ⟨between, _, never⟩
  · subst isInner isTail
    obtain ⟨word, frontYields⟩ := exists_yields_of_productive productive fun symbol inside =>
      known symbol (List.mem_append_left _ inside)
    obtain ⟨rest, betweenYields⟩ := exists_yields_of_productive productive fun symbol inside =>
      known symbol (List.mem_append_right front (List.mem_cons_of_mem _ inside))
    have terminals := frontYields.terminals wellFormed fun symbol inside =>
      known symbol (List.mem_append_left _ inside)
    obtain ⟨after, leftmost, later⟩ := chain.exists_leftmost rfl frontYields terminals
    have ended : grammar.Yields [.endMarker] [.endMarker] := .input rfl .nil
    have tailYields := betweenYields.append ended
    exact ⟨word, after, rest ++ [.endMarker], terminals, leftmost, tailYields,
      .of_derives later tailYields⟩
  · have isEnd : Symbol.nonterminal name ∈ [Symbol.endMarker] := never ▸ by simp
    exact absurd (List.mem_singleton.mp isEnd) Symbol.noConfusion

/--
A leftmost derivation comes to each nonterminal, and where a symbol follows the nonterminal, to
one behind which the input goes on with that symbol.
-/
theorem exists_context (reachable : ∀ name ∈ grammar.nonterminals, grammar.Reachable name)
    {name : Name} (known : name ∈ grammar.nonterminals) (symbol : Symbol) :
    ∃ word after rest, Terminals word ∧
      grammar.DerivesLeftmost [.nonterminal grammar.start, .endMarker]
        (word ++ .nonterminal name :: after) ∧
      grammar.Yields after rest ∧ (symbol ∈ grammar.follow.get name → rest.head? = some symbol) := by
  by_cases comes : symbol ∈ grammar.follow.get name
  · obtain ⟨front, tail, isInput, chain⟩ :=
      (follows_of_mem_followSetsFrom wellFormed _ comes).exists_derives reachable
    obtain ⟨word, after, rest, terminals, leftmost, tailYields, afterYields⟩ :=
      exists_context_of_derives wellFormed productive chain
    refine ⟨word, after, rest, terminals, leftmost, afterYields, fun _ => ?_⟩
    cases tailYields with
    | input => rfl
    | expand => cases isInput
  · obtain ⟨front, tail, chain⟩ := reachable name known
    have whole := chain.with_endMarker
    rw [List.append_assoc] at whole
    obtain ⟨word, after, rest, terminals, leftmost, _, afterYields⟩ :=
      exists_context_of_derives wellFormed productive whole
    exact ⟨word, after, rest, terminals, leftmost, afterYields, fun inside => absurd inside comes⟩

/-- An alternative leads to an input that begins with any symbol that can open it. -/
theorem exists_yields_of_opens {name : Name} {index : Nat} {production : Production}
    (found : grammar.production? name index = some production) {symbol : Symbol}
    (opens : grammar.firstSets.Opens (· ∈ grammar.follow.get name) production.body symbol)
    {after rest : List Symbol} (afterYields : grammar.Yields after rest)
    (begins : symbol ∈ grammar.follow.get name → rest.head? = some symbol) :
    ∃ input, grammar.Yields (production.body ++ after) input ∧ input.head? = some symbol := by
  rcases leads_or_yields_of_opens (firstSound_firstComputation wellFormed)
    (wellFormed.epsilon_not_mem_body found) opens with leads | ⟨vanishes, comes⟩
  · obtain ⟨others, chain⟩ := leads.exists_derives
    have known := Known.of_derives wellFormed chain (Known.of_body wellFormed found)
    obtain ⟨word, othersYield⟩ := exists_yields_of_productive productive fun other inside =>
      known other (List.mem_append_right _ inside)
    have isInput := leads.isInput symbol List.mem_cons_self
    have bodyYields := Yields.of_derives chain (.input isInput othersYield)
    exact ⟨_, bodyYields.append afterYields, rfl⟩
  · exact ⟨_, vanishes.append afterYields, begins comes⟩

end Useful

/--
A grammar whose nonterminals are all reachable and productive has a predictive table without
conflicts exactly when it is predictable.
-/
theorem isLL1_iff_predictable (built : grammar.Built)
    (reachable : ∀ name ∈ grammar.nonterminals, grammar.Reachable name)
    (productive : ∀ name ∈ grammar.nonterminals, grammar.Productive name) :
    grammar.analysis.isLL1 = true ↔ grammar.Predictable := by
  have wellFormed := built.wellFormed
  apply (LL1.Table.isOk_build_iff wellFormed.nonterminals_nodup).trans
  constructor
  · intro apart word after left right name index other one another terminals leftmost found
      otherFound different leftTerminals rightTerminals leftDerives rightDerives sameHead
    have opens := opens_of_derives wellFormed leftmost.derives found leftTerminals leftDerives
    have otherOpens :=
      opens_of_derives wellFormed leftmost.derives otherFound rightTerminals rightDerives
    rw [List.headD_eq_head?_getD, ← sameHead, ← List.headD_eq_head?_getD] at otherOpens
    exact different (apart name _ index other one another found otherFound opens otherOpens)
  · intro predictable name lookahead index other one another found otherFound opens otherOpens
    refine Decidable.byContradiction fun different => ?_
    obtain ⟨word, after, rest, terminals, leftmost, afterYields, begins⟩ :=
      exists_context wellFormed productive reachable (mem_nonterminals_of_production? found) lookahead
    obtain ⟨first, firstYields, firstHead⟩ :=
      exists_yields_of_opens wellFormed productive found opens afterYields begins
    obtain ⟨second, secondYields, secondHead⟩ :=
      exists_yields_of_opens wellFormed productive otherFound otherOpens afterYields begins
    obtain ⟨left, isFirst, leftTerminals⟩ := exists_left_of_yields wellFormed
      (leftmost.step terminals found).derives terminals firstYields
    obtain ⟨right, isSecond, rightTerminals⟩ := exists_left_of_yields wellFormed
      (leftmost.step terminals otherFound).derives terminals secondYields
    subst isFirst isSecond
    exact predictable word after left right name index other one another terminals leftmost found
      otherFound different leftTerminals rightTerminals firstYields.derives secondYields.derives
      (firstHead.trans secondHead.symm)

theorem predictable_nestedPairs : nestedPairs.analysis.isLL1 = true ∧ nestedPairs.Predictable := by
  have reachable : ∀ name ∈ nestedPairs.nonterminals, nestedPairs.Reachable name := by
    intro name known
    rw [List.mem_singleton.mp known]
    exact ⟨[], [], .refl _⟩
  exact ⟨LL1.Table.isLL1_nestedPairs,
    (isLL1_iff_predictable built_nestedPairs reachable nestedPairs_productive).mp
      LL1.Table.isLL1_nestedPairs⟩

end Lookahead.Grammar
