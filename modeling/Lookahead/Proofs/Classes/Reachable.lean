import Lookahead.Data.Exploration
import Lookahead.Proofs.Classes.Selection

/-!
# Rules that are not used

Rules of nonterminals that the start symbol does not lead to change no derived
sequence, but FIRST, FOLLOW and the predictive table are made of all rules.  So
without them a grammar stays in its classes, and may come into more: FOLLOW loses
the terminals that stand behind a nonterminal in unused rules alone.
-/

namespace Lookahead.Grammar

def bodyNames (grammar : Grammar) (name : Name) : List Name :=
  (grammar.productions name).flatMap fun production =>
    production.body.filterMap Symbol.nonterminal?

variable {grammar : Grammar} {name other : Name} {symbol : Symbol}

theorem mem_bodyNames_iff : other ∈ grammar.bodyNames name ↔
    ∃ index production, grammar.production? name index = some production ∧
      .nonterminal other ∈ production.body := by
  simp only [bodyNames, List.mem_flatMap, List.mem_filterMap, Symbol.nonterminal?_eq_some_iff]
  constructor
  · rintro ⟨production, listed, symbol, inside, isName⟩
    obtain ⟨index, found⟩ := List.getElem?_of_mem listed
    exact ⟨index, production, found, isName ▸ inside⟩
  · rintro ⟨index, production, found, inside⟩
    exact ⟨production, List.mem_of_getElem? found, _, inside, rfl⟩

theorem mem_followNames_of_mem_bodyNames (inside : other ∈ grammar.bodyNames name) :
    other ∈ grammar.followNames := by
  obtain ⟨index, production, found, inBody⟩ := mem_bodyNames_iff.mp inside
  simp only [followNames, SortedSet.mem_ofList, List.mem_append, List.mem_filterMap]
  exact .inr ⟨_, mem_bodySymbols_of_production? found inBody, rfl⟩

def reachableNames (grammar : Grammar) : List Name :=
  Exploration.explore grammar.bodyNames
    (atMost_of_list (P := fun name => name ∈ grammar.followNames) grammar.followNames.toList
      fun _ found => (SortedSet.mem_toList _ _).mpr found)
    (fun _ _ _ found => mem_followNames_of_mem_bodyNames found)
    [grammar.start] fun _ found => List.mem_singleton.mp found ▸ start_mem_followNames grammar

/-- The grammar without the rules of the nonterminals that the start symbol does not lead to. -/
def reachablePart (grammar : Grammar) : Grammar :=
  .ofRules grammar.conventions
    (grammar.rules.filter fun rule => decide (rule.lhs ∈ grammar.reachableNames))

theorem Reachable.start (grammar : Grammar) : grammar.Reachable grammar.start :=
  ⟨[], [], .refl _⟩

/-- What stands in the alternatives of a reachable name is reachable. -/
theorem Reachable.of_production {index : Nat} {production : Production}
    (reachable : grammar.Reachable name)
    (found : grammar.production? name index = some production) :
    Within grammar.Reachable production.body := by
  intro other inside
  obtain ⟨before, after, chain⟩ := reachable
  obtain ⟨left, right, splits⟩ := List.append_of_mem inside
  refine ⟨before ++ left, right ++ after, ?_⟩
  have expanded := chain.step (.expand before after found)
  simpa [splits] using expanded

theorem mem_reachableNames : name ∈ grammar.reachableNames ↔ grammar.Reachable name := by
  rw [reachableNames, Exploration.mem_explore]
  constructor
  · intro reached
    induction reached with
    | seed found => exact List.mem_singleton.mp found ▸ .start grammar
    | step _ found ih =>
        obtain ⟨index, production, inGrammar, inside⟩ := mem_bodyNames_iff.mp found
        exact ih.of_production inGrammar _ inside
  · rintro ⟨before, after, chain⟩
    have agree : AgreeOn (Exploration.Reached grammar.bodyNames [grammar.start]) grammar grammar := by
      refine ⟨fun _ _ => rfl, fun name index production reached found other inside => ?_⟩
      exact .step reached (mem_bodyNames_iff.mpr ⟨index, production, found, inside⟩)
    refine (agree.derives (within_singleton.mpr ?_) chain).2 name (by simp)
    exact .seed List.mem_cons_self

@[simp]
theorem start_reachablePart (grammar : Grammar) : grammar.reachablePart.start = grammar.start := rfl

theorem mem_rules_reachablePart {rule : Rule} : rule ∈ grammar.reachablePart.rules ↔
    rule ∈ grammar.rules ∧ grammar.Reachable rule.lhs := by
  simp only [reachablePart, ofRules, rules_indexed, List.mem_filter, decide_eq_true_eq, mem_reachableNames]

theorem mem_nonterminals_reachablePart :
    name ∈ grammar.reachablePart.nonterminals ↔ name ∈ grammar.nonterminals ∧ grammar.Reachable name := by
  simp only [nonterminals, List.mem_map, mem_rules_reachablePart]
  constructor
  · rintro ⟨rule, ⟨inside, reachable⟩, isName⟩
    exact ⟨⟨rule, inside, isName⟩, isName ▸ reachable⟩
  · rintro ⟨⟨rule, inside, isName⟩, reachable⟩
    exact ⟨rule, ⟨inside, isName ▸ reachable⟩, isName⟩

theorem productions_reachablePart (reachable : grammar.Reachable name) :
    grammar.reachablePart.productions name = grammar.productions name := by
  have sameRule : grammar.reachablePart.rule? name = grammar.rule? name := by
    simp only [rule?_eq_find?, reachablePart, ofRules, rules_indexed, List.find?_filter]
    congr 1
    funext rule
    by_cases isName : rule.lhs = name
    · simp [isName, mem_reachableNames.mpr reachable]
    · simp [isName]
  rw [productions, productions, sameRule]

/-- Deleting the rules that are not used changes no alternatives of reachable names. -/
theorem agreeOn_reachablePart (grammar : Grammar) :
    AgreeOn grammar.Reachable grammar grammar.reachablePart where
  productions := fun _ reachable => (productions_reachablePart reachable).symm
  closed := fun _ _ _ reachable found => reachable.of_production found

theorem production?_reachablePart {index : Nat} {production : Production} :
    grammar.reachablePart.production? name index = some production ↔
      grammar.production? name index = some production ∧ grammar.Reachable name := by
  constructor
  · intro found
    have known := mem_nonterminals_of_production? found
    have reachable := (mem_nonterminals_reachablePart.mp known).2
    rw [← (agreeOn_reachablePart grammar).production?_eq reachable] at found
    exact ⟨found, reachable⟩
  · rintro ⟨found, reachable⟩
    rw [← (agreeOn_reachablePart grammar).production?_eq reachable]
    exact found

theorem selects_reachablePart (grammar : Grammar) :
    grammar.reachablePart.Selects grammar fun _ index => index where
  start := start_reachablePart grammar
  found := fun _ _ _ found => (production?_reachablePart.mp found).1
  injective := fun _ _ _ same => same

theorem WellFormed.reachablePart (wellFormed : grammar.WellFormed) :
    grammar.reachablePart.WellFormed where
  start_defined := mem_nonterminals_reachablePart.mpr ⟨wellFormed.start_defined, .start grammar⟩
  nonterminals_nodup :=
    wellFormed.nonterminals_nodup.sublist (List.Sublist.map Rule.lhs List.filter_sublist)
  productions_ne_nil := fun rule inside =>
    wellFormed.productions_ne_nil rule (mem_rules_reachablePart.mp inside).1
  body_resolved := by
    intro symbol inside
    obtain ⟨rule, isRule, inRule⟩ := List.mem_flatMap.mp inside
    obtain ⟨production, listed, inBody⟩ := List.mem_flatMap.mp inRule
    obtain ⟨inGrammar, reachable⟩ := mem_rules_reachablePart.mp isRule
    have inSymbols : symbol ∈ grammar.bodySymbols := List.mem_flatMap.mpr ⟨rule, inGrammar, inRule⟩
    rcases wellFormed.body_resolved symbol inSymbols with ⟨name, same, unknown⟩ | ⟨name, same, known⟩
    · exact .inl ⟨name, same, fun known => unknown (mem_nonterminals_reachablePart.mp known).1⟩
    · obtain ⟨index, found⟩ := List.getElem?_of_mem listed
      have inPart := production?_eq_some_iff.mpr
        ⟨rule, rule?_of_mem wellFormed.nonterminals_nodup inGrammar, found⟩
      have inReach := reachable.of_production inPart name (same ▸ inBody)
      exact .inr ⟨name, same, mem_nonterminals_reachablePart.mpr ⟨known, inReach⟩⟩
  mem_terminals := terminals_ofRules_exact _ _

/-- The same sequences are derived from the start symbol and the end marker. -/
theorem derives_reachablePart_iff {last : List Symbol} :
    grammar.reachablePart.Derives [.nonterminal grammar.reachablePart.start, .endMarker] last ↔
      grammar.Derives [.nonterminal grammar.start, .endMarker] last := by
  refine ((agreeOn_reachablePart grammar).derives_iff fun name inside => ?_).symm
  have isStart : name = grammar.start := by simpa using inside
  exact isStart ▸ .start grammar

theorem reachable_reachablePart (reachable : grammar.Reachable name) :
    grammar.reachablePart.Reachable name := by
  obtain ⟨before, after, chain⟩ := reachable
  have fromStart := within_singleton.mpr (Reachable.start grammar)
  exact ⟨before, after, ((agreeOn_reachablePart grammar).derives fromStart chain).1⟩

/-- Without the rules that are not used nothing leaks. -/
theorem mem_follow_reachablePart_iff (wellFormed : grammar.WellFormed) :
    symbol ∈ grammar.reachablePart.follow.get name ↔ grammar.FollowsFromStart name symbol := by
  have sameStart : grammar.reachablePart.FollowsFromStart name symbol ↔
      grammar.FollowsFromStart name symbol := by
    simp only [FollowsFromStart, derives_reachablePart_iff]
  rw [mem_follow_iff_fromStart_or_leaks wellFormed.reachablePart, sameStart]
  constructor
  · rintro (fromStart | ⟨_, root, known, never, _⟩)
    · exact fromStart
    · exact absurd (reachable_reachablePart (mem_nonterminals_reachablePart.mp known).2) never
  · exact .inl

theorem Reachable.of_leftContext {context : List Symbol}
    (outer : LR0.LeftContext grammar context name) : grammar.Reachable name := by
  induction outer with
  | start => exact .start grammar
  | inside _ found splits ih => exact ih.of_production found _ (by rw [splits]; simp)

section SameFollow

variable (wellFormed : grammar.WellFormed)
  (sameFollow : ∀ name, grammar.Reachable name →
    grammar.follow.get name = grammar.reachablePart.follow.get name)
include wellFormed sameFollow

theorem isSLR1_of_reachablePart (isSLR1 : grammar.reachablePart.analysis.isSLR1 = true) :
    grammar.analysis.isSLR1 = true := by
  refine SLR1.isSLR1_of_places (start_reachablePart grammar).symm ?_ wellFormed
    wellFormed.reachablePart (fun _ _ _ same => same) ?_ isSLR1
  · intro context name index production outer found
    exact production?_reachablePart.mpr ⟨found, .of_leftContext outer⟩
  · intro context name outer symbol inside
    exact sameFollow name (.of_leftContext outer) ▸ inside

/-- Unused rules whose alternatives the symbols tell apart do no harm. -/
theorem isLL1_iff_reachablePart : grammar.analysis.isLL1 = true ↔
    grammar.reachablePart.analysis.isLL1 = true ∧
      ∀ name ∈ grammar.nonterminals, ¬ grammar.Reachable name → grammar.OpensApart name := by
  have unused : ∀ name, ¬ grammar.Reachable name → grammar.reachablePart.OpensApart name :=
    fun _ never => .of_not_mem fun known => never (mem_nonterminals_reachablePart.mp known).2
  rw [(agreeOn_reachablePart grammar).isLL1_iff wellFormed wellFormed.reachablePart sameFollow unused]
  constructor
  · rintro ⟨inPart, apart⟩
    exact ⟨inPart, fun name _ never => apart name never⟩
  · rintro ⟨inPart, apart⟩
    refine ⟨inPart, fun name never => ?_⟩
    by_cases known : name ∈ grammar.nonterminals
    · exact apart name known never
    · exact .of_not_mem known

end SameFollow

/--
Without the rules that are not used, a grammar stays in its classes, and FOLLOW of a reachable
nonterminal is what follows it in sequences derived from the start symbol.  With them FOLLOW holds
what leaks besides; where nothing does, the shift-reduce class is the same with them and without, and
the predictive class unless a symbol opens two alternatives of an unused rule.
-/
theorem reachablePart_classes (built : grammar.Built) :
    (∀ rule, rule ∈ grammar.reachablePart.rules ↔
      rule ∈ grammar.rules ∧ grammar.Reachable rule.lhs) ∧
    (grammar.analysis.isLL1 = true → grammar.reachablePart.analysis.isLL1 = true) ∧
    (grammar.analysis.isSLR1 = true → grammar.reachablePart.analysis.isSLR1 = true) ∧
    (∀ name, grammar.Reachable name → ∀ symbol,
      (symbol ∈ grammar.reachablePart.follow.get name ↔ grammar.FollowsFromStart name symbol) ∧
      (symbol ∈ grammar.follow.get name ↔
        grammar.FollowsFromStart name symbol ∨ grammar.Leaks name symbol)) ∧
    ((∀ name, grammar.Reachable name →
        grammar.follow.get name = grammar.reachablePart.follow.get name) →
      grammar.analysis.isSLR1 = grammar.reachablePart.analysis.isSLR1 ∧
      (grammar.analysis.isLL1 = true ↔ grammar.reachablePart.analysis.isLL1 = true ∧
        ∀ name ∈ grammar.nonterminals, ¬ grammar.Reachable name → grammar.OpensApart name)) := by
  have wellFormed := built.wellFormed
  have selects := selects_reachablePart grammar
  have keepsSLR1 := selects.isSLR1 wellFormed.reachablePart wellFormed
  refine ⟨fun _ => mem_rules_reachablePart, selects.isLL1 wellFormed.reachablePart wellFormed,
    keepsSLR1, fun name _ symbol => ⟨?_, ?_⟩, fun sameFollow => ⟨?_, ?_⟩⟩
  · exact mem_follow_reachablePart_iff wellFormed
  · exact mem_follow_iff_fromStart_or_leaks wellFormed
  · exact Bool.eq_iff_iff.mpr ⟨keepsSLR1, isSLR1_of_reachablePart wellFormed sameFollow⟩
  · exact isLL1_iff_reachablePart wellFormed sameFollow

/-- A grammar of nested pairs with an unused rule, in which a pair stands before the end of a pair. -/
def pairsAndUnused : Grammar :=
  .ofRules {}
    [⟨"S", [⟨[.terminal "a", .nonterminal "S", .terminal "b"]⟩, ⟨[]⟩]⟩,
      ⟨"U", [⟨[.terminal "d", .nonterminal "S", .terminal "b"]⟩]⟩]

theorem built_pairsAndUnused : pairsAndUnused.Built :=
  .build (.add "U" [[.terminal "d", .nonterminal "S", .terminal "b"]]
    (.add "S" [[.terminal "a", .nonterminal "S", .terminal "b"], []] (.empty {}))) rfl

theorem pairsAndUnused_classes :
    pairsAndUnused.analysis.isLL1 = true ∧ pairsAndUnused.analysis.isSLR1 = true := by
  decide +kernel

theorem reachablePart_classes_pairsAndUnused :
    pairsAndUnused.reachablePart.analysis.isLL1 = true ∧
      pairsAndUnused.reachablePart.analysis.isSLR1 = true ∧
      pairsAndUnused.FollowsFromStart "S" (.terminal "b") ∧
      ∀ name ∈ pairsAndUnused.nonterminals, ¬ pairsAndUnused.Reachable name →
        pairsAndUnused.OpensApart name := by
  obtain ⟨_, predictive, _, follow, same⟩ := reachablePart_classes built_pairsAndUnused
  have follows : .terminal "b" ∈ pairsAndUnused.reachablePart.follow.get "S" := by decide +kernel
  have sameFollow : ∀ name, pairsAndUnused.Reachable name →
      pairsAndUnused.follow.get name = pairsAndUnused.reachablePart.follow.get name := by
    intro name reachable
    have isReached : pairsAndUnused.reachableNames = ["S"] := by decide +kernel
    have isStart : name = "S" := List.mem_singleton.mp (isReached ▸ mem_reachableNames.mpr reachable)
    rw [isStart]
    decide +kernel
  obtain ⟨sameClass, apart⟩ := same sameFollow
  obtain ⟨isLL1, isSLR1⟩ := pairsAndUnused_classes
  exact ⟨predictive isLL1, sameClass.symm.trans isSLR1,
    (follow "S" (.start pairsAndUnused) _).1.mp follows, (apart.mp isLL1).2⟩

/-- A grammar whose second nonterminal can vanish, and stands before another symbol in an unused rule. -/
def unusedContext : Grammar :=
  .ofRules {}
    [⟨"S", [⟨[.nonterminal "A", .terminal "c"]⟩]⟩,
      ⟨"A", [⟨[.terminal "b"]⟩, ⟨[]⟩]⟩,
      ⟨"U", [⟨[.nonterminal "A", .terminal "b"]⟩]⟩]

theorem built_unusedContext : unusedContext.Built :=
  .build (.add "U" [[.nonterminal "A", .terminal "b"]]
    (.add "A" [[.terminal "b"], []]
      (.add "S" [[.nonterminal "A", .terminal "c"]] (.empty {})))) rfl

/-- The symbol that leaks from the unused rule opens both alternatives, in either kind of table. -/
theorem unusedContext_leaks : unusedContext.Built ∧ unusedContext.Reachable "A" ∧
    unusedContext.analysis.isLL1 ≠ unusedContext.reachablePart.analysis.isLL1 ∧
    unusedContext.analysis.isSLR1 ≠ unusedContext.reachablePart.analysis.isSLR1 ∧
    ¬ ∀ symbol, symbol ∈ unusedContext.follow.get "A" ↔
      unusedContext.FollowsFromStart "A" symbol := by
  have isReached : "A" ∈ unusedContext.reachableNames := by decide +kernel
  refine ⟨built_unusedContext, mem_reachableNames.mp isReached, ?_, ?_, fun same => ?_⟩
  · decide +kernel
  · decide +kernel
  · have leaks : .terminal "b" ∈ unusedContext.follow.get "A" := by decide +kernel
    have absent : .terminal "b" ∉ unusedContext.reachablePart.follow.get "A" := by decide +kernel
    apply absent
    rw [mem_follow_reachablePart_iff built_unusedContext.wellFormed]
    exact (same _).mp leaks

end Lookahead.Grammar
