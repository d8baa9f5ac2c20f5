import Lookahead.Grammar.Printer
import Lookahead.Proofs.Grammar.RuleLines

/-!
# Grammars read back from their text

Every symbol of a grammar that was read from a text is one character, and its names can
stand before an arrow.  Such a grammar is read back from its printed text.
-/

namespace Lookahead

/-- A production whose symbols are spelled by the characters of a word when `names` have rules. -/
structure Production.SpelledBy (conventions : Conventions) (names : List Name)
    (production : Production) (word : List Char) : Prop where
  body_eq : production.body =
    word.map fun character => Draft.settle names (conventions.classify character)
  solid : ∀ character ∈ word, conventions.classify character ≠ .epsilon ∧
    conventions.classify character ≠ .endMarker
  clear : ∀ character ∈ word, Text.isBlank character = false
  epsilon_clear : word = [] → Text.isBlank conventions.epsilon = false

section Spelling

variable {conventions : Conventions} {names : List Name}

theorem classify_epsilon (conventions : Conventions) :
    conventions.classify conventions.epsilon = .epsilon :=
  if_pos rfl

theorem eq_epsilon_of_classify {character : Char}
    (empty : conventions.classify character = .epsilon) : character = conventions.epsilon := by
  unfold Conventions.classify at empty
  split at empty
  · assumption
  · split at empty
    · cases empty
    · split at empty <;> cases empty

/-- A symbol is shown as the character that spells it. -/
theorem text_classify {character : Char} (notEmpty : conventions.classify character ≠ .epsilon)
    (notEnd : conventions.classify character ≠ .endMarker) :
    (conventions.classify character).text.toList = [character] := by
  unfold Conventions.classify at notEmpty notEnd ⊢
  split
  · rename_i same
    exact absurd (if_pos same) notEmpty
  · rename_i different
    rw [if_neg different] at notEnd
    split
    · rename_i same
      exact absurd (if_pos same) notEnd
    · split <;> exact String.toList_singleton character

/-- Of a word that holds no end marker, the characters that are not dropped spell the production. -/
theorem spelledBy_filter {word : List Char} (nonempty : word ≠ [])
    (clear : ∀ character ∈ word, Text.isBlank character = false)
    (noEnd : ∀ character ∈ word, conventions.classify character ≠ .endMarker) :
    (Production.ofSymbols ((word.map conventions.classify).map (Draft.settle names))).SpelledBy
      conventions names
      (word.filter fun character => decide (conventions.classify character ≠ .epsilon)) where
  body_eq := by
    simp only [Production.ofSymbols, List.map_map, List.filter_map, Function.comp_def,
      Draft.settle_eq_epsilon_iff, ne_eq]
  solid := by
    intro character inside
    obtain ⟨found, notEmpty⟩ := List.mem_filter.mp inside
    exact ⟨of_decide_eq_true notEmpty, noEnd character found⟩
  clear := fun character inside => clear character (List.mem_of_mem_filter inside)
  epsilon_clear := by
    intro isNil
    obtain ⟨character, found⟩ := List.exists_mem_of_ne_nil _ nonempty
    have empty := List.filter_eq_nil_iff.mp isNil character found
    rw [decide_eq_true_eq, not_not] at empty
    exact eq_epsilon_of_classify empty ▸ clear character found

namespace Production.SpelledBy

variable {production : Production} {word : List Char}
  (spelled : production.SpelledBy conventions names word)
include spelled

theorem printProduction_eq : Grammar.printProduction conventions production =
    if word = [] then [conventions.epsilon] else word := by
  cases word with
  | nil =>
      rw [Grammar.printProduction, Production.isEmpty, spelled.body_eq]
      rfl
  | cons head rest =>
      have notEmpty : ¬ production.isEmpty = true := by
        rw [Production.isEmpty, spelled.body_eq]
        exact Bool.false_ne_true
      rw [Grammar.printProduction, if_neg notEmpty, if_neg (List.cons_ne_nil head rest),
        spelled.body_eq, List.flatMap_map]
      have shown : ∀ character ∈ head :: rest,
          (Draft.settle names (conventions.classify character)).text.toList = [character] := by
        intro character inside
        obtain ⟨notEmpty, notEnd⟩ := spelled.solid character inside
        rw [Draft.text_settle, text_classify notEmpty notEnd]
      rw [List.flatMap_congr shown, List.flatMap_singleton']

/-- The printed production is one word. -/
theorem printProduction_clear : Grammar.printProduction conventions production ≠ [] ∧
    ∀ character ∈ Grammar.printProduction conventions production, Text.isBlank character = false := by
  rw [spelled.printProduction_eq]
  split
  · rename_i isNil
    refine ⟨List.cons_ne_nil _ _, fun character inside => ?_⟩
    rw [List.mem_singleton.mp inside]
    exact spelled.epsilon_clear isNil
  · rename_i nonempty
    exact ⟨nonempty, spelled.clear⟩

theorem endMarker_not_mem_printed :
    Symbol.endMarker ∉ (Grammar.printProduction conventions production).map conventions.classify := by
  rw [spelled.printProduction_eq]
  intro inside
  obtain ⟨character, listed, isEnd⟩ := List.mem_map.mp inside
  split at listed
  · rw [List.mem_singleton.mp listed, classify_epsilon] at isEnd
    cases isEnd
  · exact (spelled.solid character listed).2 isEnd

theorem mem_body_of_printed {name : Name} (inside : Symbol.nonterminal name ∈
    (Grammar.printProduction conventions production).map conventions.classify) :
    Symbol.nonterminal name ∈ production.body := by
  rw [spelled.printProduction_eq] at inside
  obtain ⟨character, listed, isNonterminal⟩ := List.mem_map.mp inside
  split at listed
  · rw [List.mem_singleton.mp listed, classify_epsilon] at isNonterminal
    cases isNonterminal
  · rw [spelled.body_eq]
    exact List.mem_map.mpr ⟨character, listed, by rw [isNonterminal, Draft.settle]; rintro _ ⟨⟩⟩

/-- The printed production stands for the production again. -/
theorem ofSymbols_printed :
    Production.ofSymbols (((Grammar.printProduction conventions production).map
      conventions.classify).map (Draft.settle names)) = production := by
  rw [spelled.printProduction_eq, Production.ofSymbols, Production.mk.injEq]
  have isBody := spelled.body_eq
  split
  · rename_i isNil
    rw [isNil, List.map_nil] at isBody
    simp [classify_epsilon, Draft.settle, isBody]
  · rw [List.map_map, isBody]
    refine List.filter_eq_self.mpr fun symbol inside => ?_
    obtain ⟨character, listed, isSymbol⟩ := List.mem_map.mp inside
    rw [decide_eq_true_eq, ← isSymbol]
    exact fun empty => (spelled.solid character listed).1 (Draft.settle_eq_epsilon_iff.mp empty)

end Production.SpelledBy

end Spelling

namespace Grammar

/-- What a grammar satisfies that can be read from a text. -/
structure Legible (grammar : Grammar) : Prop extends grammar.WellFormed where
  names_legible : ∀ rule ∈ grammar.rules, LegibleName rule.lhs
  productions_spelled : ∀ rule ∈ grammar.rules, ∀ production ∈ rule.productions,
    ∃ word, production.SpelledBy grammar.conventions grammar.nonterminals word

variable {conventions : Conventions} {grammar : Grammar}

theorem read_eq_ok_iff {text : String} : read conventions text = .ok grammar ↔
    ∃ draft, readDraft conventions text.toList = .ok draft ∧ draft.build = .ok grammar := by
  rw [read]
  cases readDraft conventions text.toList with
  | error fault => simp
  | ok draft => simp

/-- A grammar that is read is made of legible names and of words. -/
theorem legible_of_read {text : String} (ok : read conventions text = .ok grammar) :
    grammar.Legible ∧ grammar.conventions = conventions := by
  obtain ⟨draft, isRead, built⟩ := read_eq_ok_iff.mp ok
  obtain ⟨written, legible, rfl⟩ := exists_written_of_readDraft isRead
  have wellFormed := Draft.wellFormed_of_build (Draft.collected_ofEntries _ _) built
  obtain ⟨noFaults, isSettled⟩ := Draft.build_eq_ok_iff.mp built
  have complete := Draft.faults_ofEntries_eq_nil_iff.mp noFaults
  have names := (Draft.ofEntries conventions (written.map WrittenRule.entry)).nonterminals_settled
  have rules := Draft.rules_settled conventions (written.map WrittenRule.entry)
  have sameConventions : grammar.conventions = conventions :=
    isSettled ▸ Draft.conventions_ofEntries _ _
  rw [isSettled, Draft.names_ofEntries] at names
  rw [isSettled] at rules
  refine ⟨⟨wellFormed, ?_, ?_⟩, sameConventions⟩
  · intro rule inside
    have known : rule.lhs ∈ grammar.nonterminals := List.mem_map_of_mem inside
    obtain ⟨entry, listed, isLhs⟩ := mem_definedNames.mp (names ▸ known)
    obtain ⟨writtenRule, ruleInside, rfl⟩ := List.mem_map.mp listed
    exact isLhs ▸ (legible writtenRule ruleInside).toLegibleName
  · intro rule inside production listed
    rw [rules] at inside
    obtain ⟨name, _, rfl⟩ := List.mem_map.mp inside
    obtain ⟨alternative, given, rfl⟩ := List.mem_map.mp listed
    obtain ⟨entry, entered, _, isAlternative⟩ := mem_alternativesFor.mp given
    have noEnd := complete.endMarker_not_mem entry entered alternative isAlternative
    obtain ⟨writtenRule, ruleInside, rfl⟩ := List.mem_map.mp entered
    obtain ⟨word, isWord, rfl⟩ := List.mem_map.mp isAlternative
    obtain ⟨nonempty, clear⟩ := (legible writtenRule ruleInside).words_clear word isWord
    rw [names, sameConventions]
    exact ⟨_, spelledBy_filter nonempty clear fun character found isEnd =>
      noEnd (List.mem_map.mpr ⟨character, found, isEnd⟩)⟩

def written (grammar : Grammar) (rule : Rule) : WrittenRule :=
  ⟨rule.lhs, rule.productions.map (printProduction grammar.conventions)⟩

theorem toList_print (grammar : Grammar) :
    grammar.print.toList = WrittenRule.text (grammar.rules.map grammar.written) := by
  rw [print, String.toList_ofList, WrittenRule.text, List.flatMap_map]
  refine List.flatMap_congr fun rule _ => ?_
  rw [printRule, WrittenRule.line, written, List.flatMap_map]

def rewritten (grammar : Grammar) : Draft :=
  .ofEntries grammar.conventions ((grammar.rules.map grammar.written).map WrittenRule.entry)

@[simp]
theorem conventions_rewritten (grammar : Grammar) :
    grammar.rewritten.conventions = grammar.conventions :=
  Draft.conventions_ofEntries _ _

namespace Legible

variable (legible : grammar.Legible)
include legible

theorem written_legible {rule : Rule} (inside : rule ∈ grammar.rules) :
    (grammar.written rule).Legible where
  toLegibleName := legible.names_legible rule inside
  alternatives_ne_nil := fun isNil =>
    legible.productions_ne_nil rule inside (List.map_eq_nil_iff.mp isNil)
  words_clear := by
    intro word listed
    obtain ⟨production, given, rfl⟩ := List.mem_map.mp listed
    obtain ⟨_, spelled⟩ := legible.productions_spelled rule inside production given
    exact spelled.printProduction_clear

theorem rules_rewritten : grammar.rewritten.rules = grammar.rules.map fun rule =>
    (rule.lhs, rule.productions.map fun production =>
      (printProduction grammar.conventions production).map grammar.conventions.classify) := by
  rw [rewritten, Draft.rules_ofEntries_of_nodup]
  · simp only [List.map_map, Function.comp_def, WrittenRule.entry, written, Entry.lhs,
      Entry.alternatives]
  · simp only [List.map_map, Function.comp_def, WrittenRule.entry, written, Entry.lhs]
    exact legible.nonterminals_nodup

theorem names_rewritten : grammar.rewritten.names = grammar.nonterminals := by
  rw [Draft.names, legible.rules_rewritten, List.map_map]
  rfl

theorem faults_rewritten : grammar.rewritten.faults = [] := by
  rw [Draft.faults_eq_nil_iff, legible.names_rewritten, legible.rules_rewritten,
    conventions_rewritten]
  refine ⟨legible.start_defined, fun entry listed => ?_⟩
  obtain ⟨rule, inside, rfl⟩ := List.mem_map.mp listed
  rw [Draft.ruleFaults_eq_nil_iff]
  refine ⟨fun isNil => legible.productions_ne_nil rule inside (List.map_eq_nil_iff.mp isNil), ?_⟩
  intro alternative given symbol found
  obtain ⟨production, isProduction, rfl⟩ := List.mem_map.mp given
  obtain ⟨_, spelled⟩ := legible.productions_spelled rule inside production isProduction
  refine ⟨?_, fun isEnd => spelled.endMarker_not_mem_printed (isEnd ▸ found)⟩
  rintro name rfl
  have inBodies : Symbol.nonterminal name ∈ grammar.bodySymbols :=
    List.mem_flatMap.mpr ⟨rule, inside,
      List.mem_flatMap.mpr ⟨production, isProduction, spelled.mem_body_of_printed found⟩⟩
  rcases legible.body_resolved _ inBodies with ⟨_, isTerminal, _⟩ | ⟨_, same, known⟩
  · cases isTerminal
  · exact Symbol.nonterminal.inj same ▸ known

theorem settled_rewritten : grammar.rewritten.settled = grammar := by
  have sameRule : ∀ rule ∈ grammar.rules,
      Draft.settleRule grammar.nonterminals rule.lhs (rule.productions.map fun production =>
        (printProduction grammar.conventions production).map grammar.conventions.classify) = rule := by
    intro rule inside
    rw [Draft.settleRule, List.map_map]
    refine congrArg (Rule.mk rule.lhs) ((List.map_congr_left fun production listed => ?_).trans
      (List.map_id _))
    obtain ⟨_, spelled⟩ := legible.productions_spelled rule inside production listed
    exact spelled.ofSymbols_printed
  have sameRules : grammar.rewritten.settled.rules = grammar.rules := by
    simp only [Draft.settled, rules_indexed, legible.names_rewritten, legible.rules_rewritten,
      List.map_map]
    exact (List.map_congr_left sameRule).trans (List.map_id _)
  refine eq_of_rules_eq grammar.conventions_rewritten sameRules (SortedSet.ext fun name => ?_)
  rw [Draft.terminals_settled_exact, legible.mem_terminals, bodySymbols, sameRules, bodySymbols]

theorem read_print : read grammar.conventions grammar.print = .ok grammar := by
  refine read_eq_ok_iff.mpr ⟨grammar.rewritten, ?_, Draft.build_eq_ok_iff.mpr
    ⟨legible.faults_rewritten, legible.settled_rewritten⟩⟩
  rw [toList_print]
  refine readDraft_text fun rule inside => ?_
  obtain ⟨_, found, rfl⟩ := List.mem_map.mp inside
  exact legible.written_legible found

end Legible

/-- A grammar that was read from a text is read back from its printed text. -/
theorem read_print_of_read {text : String} (ok : read conventions text = .ok grammar) :
    read conventions grammar.print = .ok grammar := by
  obtain ⟨legible, rfl⟩ := legible_of_read ok
  exact legible.read_print

/-- Four rules behind their count, two of them for one name, and a line that is not looked at. -/
def loosely : String := "4\n  S -> abe ->\r\nb->e\n\n7- -> c\nS -> b\nignored"

def tidied : Grammar :=
  .ofRules {}
    [⟨"S", [⟨[.terminal "a", .nonterminal "b"]⟩, ⟨[.terminal "-", .terminal ">"]⟩,
        ⟨[.nonterminal "b"]⟩]⟩,
      ⟨"b", [⟨[]⟩]⟩, ⟨"7-", [⟨[.terminal "c"]⟩]⟩]

theorem read_print_of_read_loosely : read {} loosely = .ok tidied ∧
    tidied.print = "S -> ab -> b\nb -> e\n7- -> c\n" ∧ read {} tidied.print = .ok tidied := by
  have ok : read {} loosely = .ok tidied := by decide +kernel
  exact ⟨ok, by decide +kernel, read_print_of_read ok⟩

end Grammar

end Lookahead
