import Lookahead.Proofs.Grammar.Viable
import Lookahead.Proofs.Sets.Follow

/-!
# FOLLOW sets are sound

What stands in a FOLLOW set can stand right after the nonterminal.  That holds of
the seeds, and is carried along every edge, in whatever order the worklist goes.
-/

namespace Lookahead

namespace SetFamily

def AllMembers (P : Name → Symbol → Prop) (family : SetFamily) : Prop :=
  ∀ name symbol, symbol ∈ family.get name → P name symbol

namespace AllMembers

variable {P : Name → Symbol → Prop} {family : SetFamily} {symbols : SymbolSet}

theorem ofNames (names : List Name) : (SetFamily.ofNames names).AllMembers P := by
  intro name symbol inside
  rw [SetFamily.get, SetFamily.get?_ofNames] at inside
  split at inside
  · exact absurd inside (SortedSet.not_mem_empty symbol)
  · exact absurd inside (SortedSet.not_mem_empty symbol)

theorem extend {name : Name} (all : family.AllMembers P) (new : ∀ symbol ∈ symbols, P name symbol) :
    (family.extend name symbols).AllMembers P := by
  intro other symbol inside
  rcases (family.get_extend name other symbols symbol).mp inside with old | ⟨isName, _, added⟩
  · exact all other symbol old
  · exact isName ▸ new symbol added

theorem foldl_extend {occurrences : List Occurrence} (seed : Occurrence → SymbolSet)
    (all : family.AllMembers P)
    (new : ∀ occurrence ∈ occurrences, ∀ symbol ∈ seed occurrence, P occurrence.name symbol) :
    (occurrences.foldl (fun family occurrence =>
      family.extend occurrence.name (seed occurrence)) family).AllMembers P := by
  induction occurrences generalizing family with
  | nil => exact all
  | cons head rest ih =>
      exact ih (all.extend (new head List.mem_cons_self)) fun other later =>
        new other (List.mem_cons_of_mem _ later)

theorem carry {targets : List Name} {work : SetFamily × List Name} (all : work.1.AllMembers P)
    (new : ∀ target ∈ targets, ∀ symbol ∈ symbols, P target symbol) :
    (SetFamily.carry symbols targets work).1.AllMembers P := by
  fun_induction SetFamily.carry symbols targets work with
  | case1 => exact all
  | case2 target rest _ _ _ ih => exact ih all fun other later => new other (List.mem_cons_of_mem _ later)
  | case3 target rest _ _ _ _ _ ih =>
      exact ih all fun other later => new other (List.mem_cons_of_mem _ later)
  | case4 target rest _ _ _ _ _ ih =>
      exact ih (all.extend (new target List.mem_cons_self)) fun other later =>
        new other (List.mem_cons_of_mem _ later)

/-- What every edge passes on holds of all that the worklist carries. -/
theorem propagate {edges : List FollowEdge} (passed : ∀ edge ∈ edges, ∀ symbol,
    P edge.source symbol → P edge.target symbol) (all : family.AllMembers P) (queue : List Name) :
    (SetFamily.propagate edges family queue).AllMembers P := by
  fun_induction SetFamily.propagate edges family queue with
  | case1 => exact all
  | case2 family waiting rest work ih =>
      refine ih (all.carry ?_)
      intro target isTarget symbol inside
      obtain ⟨edge, filtered, same⟩ := List.mem_map.mp isTarget
      obtain ⟨isEdge, isSource⟩ := List.mem_filter.mp filtered
      rw [← same]
      apply passed edge isEdge
      rw [of_decide_eq_true isSource]
      exact all waiting symbol inside

end AllMembers

end SetFamily

namespace Grammar

/--
A symbol can stand right after a nonterminal: a terminal in what some nonterminal derives, and the
end marker where the start symbol derives something that ends in the nonterminal.
-/
inductive Follows (grammar : Grammar) (name : Name) : Symbol → Prop where
  | endMarker (before : List Symbol)
      (chain : grammar.Derives [.nonterminal grammar.start] (before ++ [.nonterminal name])) :
      Follows grammar name .endMarker
  | terminal {root terminal : Name} (before after : List Symbol) (known : root ∈ grammar.nonterminals)
      (chain : grammar.Derives [.nonterminal root]
        (before ++ .nonterminal name :: .terminal terminal :: after)) :
      Follows grammar name (.terminal terminal)

variable {grammar : Grammar}

theorem follows_terminal_iff {name terminal : Name} :
    grammar.Follows name (.terminal terminal) ↔
      ∃ root ∈ grammar.nonterminals, ∃ before after, grammar.Derives [.nonterminal root]
        (before ++ .nonterminal name :: .terminal terminal :: after) := by
  constructor
  · intro follows
    cases follows with
    | terminal before after known chain => exact ⟨_, known, before, after, chain⟩
  · rintro ⟨root, known, before, after, chain⟩
    exact .terminal before after known chain

theorem follows_endMarker_iff {name : Name} :
    grammar.Follows name .endMarker ↔
      ∃ before, grammar.Derives [.nonterminal grammar.start] (before ++ [.nonterminal name]) := by
  constructor
  · intro follows
    cases follows with
    | endMarker before chain => exact ⟨before, chain⟩
  · rintro ⟨before, chain⟩
    exact .endMarker before chain

theorem Follows.isInput {name : Name} {symbol : Symbol} (follows : grammar.Follows name symbol) :
    symbol.isInput = true := by
  cases follows with
  | endMarker => rfl
  | terminal => rfl

/-- What follows the nonterminal of a rule follows one in its body after which the rest vanishes. -/
theorem Follows.last {lhs name : Name} {index : Nat} {production : Production}
    {before tail : List Symbol} {symbol : Symbol}
    (found : grammar.production? lhs index = some production)
    (splits : production.body = before ++ .nonterminal name :: tail)
    (vanishes : grammar.Derives tail []) (follows : grammar.Follows lhs symbol) :
    grammar.Follows name symbol := by
  have shortened : grammar.Derives [.nonterminal lhs] (before ++ [.nonterminal name]) := by
    refine (Derives.of_production found).trans ?_
    rw [splits]
    exact Derives.append (.refl before) (Derives.append (.refl [.nonterminal name]) vanishes)
  cases follows with
  | endMarker outer chain =>
      refine .endMarker (outer ++ before) (chain.trans ?_)
      rw [List.append_assoc]
      exact Derives.append (.refl outer) shortened
  | @terminal root terminal outer after known chain =>
      refine .terminal (outer ++ before) after known (chain.trans ?_)
      have inside := shortened.append (.refl (.terminal terminal :: after))
      rw [List.append_assoc] at inside
      rw [List.append_assoc]
      exact Derives.append (.refl outer) inside

/-- What begins the rest of a body follows the nonterminal before it. -/
theorem Follows.next (wellFormed : grammar.WellFormed) {lhs name : Name} {index : Nat}
    {production : Production} {before tail : List Symbol} {symbol : Symbol}
    (found : grammar.production? lhs index = some production)
    (splits : production.body = before ++ .nonterminal name :: tail)
    (begins : grammar.Leads tail [symbol]) : grammar.Follows name symbol := by
  have known : ∀ other ∈ tail, grammar.Known other := fun other inside =>
    Known.of_body wellFormed found other (by rw [splits]; simp [inside])
  obtain ⟨terminal, isTerminal⟩ := begins.terminals wellFormed known symbol List.mem_cons_self
  obtain ⟨rest, chain⟩ := begins.exists_derives
  subst isTerminal
  refine .terminal before rest (mem_nonterminals_of_production? found) ?_
  refine (Derives.of_production found).trans ?_
  rw [splits]
  exact Derives.append (.refl before) (Derives.append (.refl [.nonterminal name]) chain)

theorem epsilon_not_mem_tail (wellFormed : grammar.WellFormed) {lhs name : Name} {index : Nat}
    {production : Production} {before tail : List Symbol}
    (found : grammar.production? lhs index = some production)
    (splits : production.body = before ++ .nonterminal name :: tail) : Symbol.epsilon ∉ tail :=
  fun inside => wellFormed.epsilon_not_mem_body found (by rw [splits]; simp [inside])

/-- What the worklist starts with follows the nonterminals. -/
theorem followSeeds_sound (wellFormed : grammar.WellFormed) :
    (grammar.followSeeds grammar.firstSets).AllMembers grammar.Follows := by
  refine .foldl_extend _ (.extend (.ofNames _) ?_) ?_
  · intro symbol isEnd
    rw [(SortedSet.mem_singleton _ _).mp isEnd]
    exact .endMarker [] (.refl _)
  · intro occurrence occurs symbol added
    obtain ⟨begins, solid⟩ := (SortedSet.mem_filter _ _ _).mp added
    obtain ⟨index, production, before, found, splits⟩ :=
      exists_production_of_occurrence wellFormed occurs
    rcases (mem_ofSequence_iff_inFirst wellFormed
      (epsilon_not_mem_tail wellFormed found splits) symbol).mp begins with
      ⟨isEpsilon, _⟩ | ⟨_, leads⟩
    · exact absurd isEpsilon (of_decide_eq_true solid)
    · exact .next wellFormed found splits leads

/-- What stands in a FOLLOW set follows its nonterminal, in whatever order the worklist goes. -/
theorem follows_of_mem_propagate (wellFormed : grammar.WellFormed) {edges : List FollowEdge}
    (known : ∀ edge ∈ edges, edge ∈ grammar.followEdges grammar.firstSets) (queue : List Name)
    {name : Name} {symbol : Symbol}
    (inside : symbol ∈
      ((grammar.followSeeds grammar.firstSets).propagate edges queue).get name) :
    grammar.Follows name symbol := by
  refine (followSeeds_sound wellFormed).propagate ?_ queue name symbol inside
  intro edge isEdge symbol follows
  obtain ⟨occurrence, filtered, isPair⟩ := List.mem_map.mp (known edge isEdge)
  obtain ⟨occurs, vanishing⟩ := List.mem_filter.mp filtered
  obtain ⟨_, vanishes⟩ := Bool.and_eq_true_iff.mp vanishing
  obtain ⟨index, production, before, found, splits⟩ :=
    exists_production_of_occurrence wellFormed occurs
  subst isPair
  rcases (mem_ofSequence_iff_inFirst wellFormed (epsilon_not_mem_tail wellFormed found splits)
    .epsilon).mp (of_decide_eq_true vanishes) with ⟨_, nothing⟩ | ⟨never, _⟩
  · exact follows.last found splits nothing.derives
  · exact absurd rfl never

theorem follows_of_mem_followSetsFrom (wellFormed : grammar.WellFormed) (queue : List Name)
    {name : Name} {symbol : Symbol}
    (inside : symbol ∈ (grammar.followSetsFrom grammar.firstSets queue).get name) :
    grammar.Follows name symbol :=
  follows_of_mem_propagate wellFormed (fun _ isEdge => isEdge) queue inside

end Grammar

end Lookahead
