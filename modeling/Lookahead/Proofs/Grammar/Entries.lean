import Mathlib.Data.List.Induction
import Lookahead.Proofs.Grammar.Built
import Lookahead.Proofs.Grammar.Faults
import Lookahead.Proofs.Grammar.Productions

/-!
# Grammars entered step by step

A grammar is entered as a sequence of names with alternatives.  Entries of one name
are merged, a symbol is decided by all entries together, and the grammar that comes
out is consistent, as are those augmented from it.
-/

namespace Lookahead

/-- Alternatives for a name, as symbols or as words of one-character symbols. -/
inductive Entry where
  | symbols (lhs : Name) (alternatives : List (List Symbol))
  | words (lhs : Name) (alternatives : List (List Char))
  deriving DecidableEq, Inhabited

namespace Entry

def lhs : Entry → Name
  | .symbols lhs _ | .words lhs _ => lhs

def alternatives (conventions : Conventions) : Entry → List (List Symbol)
  | .symbols _ alternatives => alternatives
  | .words _ alternatives => alternatives.map fun word => word.map conventions.classify

end Entry

def definedNames (entries : List Entry) : List Name := (entries.map Entry.lhs).eraseDups

def alternativesFor (conventions : Conventions) (entries : List Entry) (name : Name) :
    List (List Symbol) :=
  (entries.filter fun entry => decide (entry.lhs = name)).flatMap (Entry.alternatives conventions)

/-- What entries satisfy that describe a grammar. -/
structure Complete (conventions : Conventions) (entries : List Entry) : Prop where
  start_entered : ∃ entry ∈ entries, entry.lhs = conventions.start
  alternatives_ne_nil : ∀ entry ∈ entries, ∃ other ∈ entries,
    other.lhs = entry.lhs ∧ other.alternatives conventions ≠ []
  nonterminal_entered : ∀ entry ∈ entries, ∀ alternative ∈ entry.alternatives conventions,
    ∀ name, .nonterminal name ∈ alternative → ∃ other ∈ entries, other.lhs = name
  endMarker_not_mem : ∀ entry ∈ entries, ∀ alternative ∈ entry.alternatives conventions,
    .endMarker ∉ alternative

variable {conventions : Conventions} {entries : List Entry} {name : Name}

theorem mem_definedNames : name ∈ definedNames entries ↔ ∃ entry ∈ entries, entry.lhs = name := by
  rw [definedNames, List.mem_eraseDups, List.mem_map]

theorem eraseDups_append_singleton (names : List Name) (last : Name) :
    (names ++ [last]).eraseDups = names.eraseDups ++ if last ∈ names then [] else [last] := by
  rw [List.eraseDups_append]
  by_cases known : last ∈ names
  · simp [List.removeAll, known]
  · simp [List.removeAll, known, List.eraseDups_cons]

theorem definedNames_append (entries : List Entry) (last : Entry) :
    definedNames (entries ++ [last]) =
      definedNames entries ++ if last.lhs ∈ definedNames entries then [] else [last.lhs] := by
  rw [definedNames, List.map_append]
  refine (eraseDups_append_singleton _ _).trans ?_
  simp only [definedNames, List.mem_eraseDups]

theorem mem_alternativesFor {alternative : List Symbol} :
    alternative ∈ alternativesFor conventions entries name ↔
      ∃ entry ∈ entries, entry.lhs = name ∧ alternative ∈ entry.alternatives conventions := by
  simp [alternativesFor, and_assoc]

theorem alternativesFor_append (entries : List Entry) (last : Entry) (name : Name) :
    alternativesFor conventions (entries ++ [last]) name =
      alternativesFor conventions entries name ++
        if name = last.lhs then last.alternatives conventions else [] := by
  rw [alternativesFor, List.filter_append, List.flatMap_append, ← alternativesFor]
  by_cases same : last.lhs = name
  · simp [same]
  · simp [same, Ne.symm same]

namespace Draft

def enter (draft : Draft) : Entry → Draft
  | .symbols lhs alternatives => draft.add lhs alternatives
  | .words lhs alternatives => draft.addWritten lhs alternatives

def ofEntries (conventions : Conventions) (entries : List Entry) : Draft :=
  entries.foldl enter { conventions }

theorem enter_eq_add (draft : Draft) (entry : Entry) :
    draft.enter entry = draft.add entry.lhs (entry.alternatives draft.conventions) := by
  cases entry <;> rfl

theorem ofEntries_append (conventions : Conventions) (entries : List Entry) (last : Entry) :
    ofEntries conventions (entries ++ [last]) = (ofEntries conventions entries).enter last := by
  rw [ofEntries, List.foldl_append]
  rfl

@[simp]
theorem conventions_ofEntries (conventions : Conventions) (entries : List Entry) :
    (ofEntries conventions entries).conventions = conventions := by
  induction entries using List.reverseRecOn with
  | nil => rfl
  | append_singleton entries last ih =>
      rw [ofEntries_append, enter_eq_add]
      exact ih

theorem collected_ofEntries (conventions : Conventions) (entries : List Entry) :
    (ofEntries conventions entries).Collected := by
  induction entries using List.reverseRecOn with
  | nil => exact .empty conventions
  | append_singleton entries last ih =>
      rw [ofEntries_append, enter_eq_add]
      exact .add _ _ ih

theorem addTo_of_not_mem {lhs : Name} {alternatives : List (List Symbol)}
    {rules : List (Name × List (List Symbol))} (fresh : lhs ∉ rules.map Prod.fst) :
    addTo lhs alternatives rules = rules ++ [(lhs, alternatives)] := by
  induction rules with
  | nil => rfl
  | cons head rest ih =>
      rw [List.map_cons, List.mem_cons, not_or] at fresh
      rw [addTo, if_neg fun same => fresh.1 same.symm, ih fresh.2, List.cons_append]

/-- Alternatives go behind those that the name has, or stand alone behind all rules. -/
theorem addTo_map {names : List Name} (nodup : names.Nodup) {lhs : Name}
    {alternativesOf : Name → List (List Symbol)} (added : List (List Symbol))
    (unknown : lhs ∉ names → alternativesOf lhs = []) :
    addTo lhs added (names.map fun name => (name, alternativesOf name)) =
      (names ++ if lhs ∈ names then [] else [lhs]).map fun name =>
        (name, alternativesOf name ++ if name = lhs then added else []) := by
  induction names with
  | nil => simp [addTo, unknown]
  | cons head rest ih =>
      obtain ⟨headFresh, restNodup⟩ := List.nodup_cons.mp nodup
      rw [List.map_cons, addTo]
      by_cases same : head = lhs
      · subst same
        have untouched : ∀ name ∈ rest, name ≠ head := fun name inside isHead =>
          headFresh (isHead ▸ inside)
        simp +contextual [untouched]
      · have different : ¬ lhs = head := fun isHead => same isHead.symm
        have restUnknown : lhs ∉ rest → alternativesOf lhs = [] := fun fresh =>
          unknown (List.not_mem_cons_of_ne_of_not_mem different fresh)
        rw [if_neg same, ih restNodup restUnknown]
        simp [same, different]

/-- A draft has one rule for each name entered, with all the alternatives entered for it. -/
theorem rules_ofEntries (conventions : Conventions) (entries : List Entry) :
    (ofEntries conventions entries).rules = (definedNames entries).map fun name =>
      (name, alternativesFor conventions entries name) := by
  -- From the back, as an entry is added to the draft of the entries before it.
  induction entries using List.reverseRecOn with
  | nil => rfl
  | append_singleton entries last ih =>
      have nodup : (definedNames entries).Nodup := by
        have oncePerName := (collected_ofEntries conventions entries).nodup_names
        rwa [names, ih, List.map_map, Function.comp_def, List.map_id'] at oncePerName
      have unknown : last.lhs ∉ definedNames entries →
          alternativesFor conventions entries last.lhs = [] := by
        intro fresh
        refine List.eq_nil_iff_forall_not_mem.mpr fun alternative listed => fresh ?_
        obtain ⟨entry, inside, isLhs, _⟩ := mem_alternativesFor.mp listed
        exact mem_definedNames.mpr ⟨entry, inside, isLhs⟩
      rw [ofEntries_append, enter_eq_add, add, conventions_ofEntries, ih, addTo_map nodup _ unknown,
        ← definedNames_append]
      simp only [alternativesFor_append]

/-- Entries of different names are not merged. -/
theorem rules_ofEntries_of_nodup (nodup : (entries.map Entry.lhs).Nodup) :
    (ofEntries conventions entries).rules =
      entries.map fun entry => (entry.lhs, entry.alternatives conventions) := by
  induction entries using List.reverseRecOn with
  | nil => rfl
  | append_singleton entries last ih =>
      rw [List.map_append, List.nodup_append] at nodup
      obtain ⟨before, _, apart⟩ := nodup
      have fresh : last.lhs ∉ (ofEntries conventions entries).rules.map Prod.fst := by
        rw [ih before, List.map_map]
        exact fun known => apart _ known _ (by simp) rfl
      rw [ofEntries_append, enter_eq_add, add, conventions_ofEntries, addTo_of_not_mem fresh,
        ih before, List.map_append, List.map_singleton]

theorem names_ofEntries (conventions : Conventions) (entries : List Entry) :
    (ofEntries conventions entries).names = definedNames entries := by
  rw [names, rules_ofEntries, List.map_map]
  exact List.map_id' _

theorem rules_settled (conventions : Conventions) (entries : List Entry) :
    (ofEntries conventions entries).settled.rules = (definedNames entries).map fun name =>
      settleRule (definedNames entries) name (alternativesFor conventions entries name) := by
  simp only [settled, Grammar.rules_indexed, names_ofEntries, rules_ofEntries, List.map_map,
    Function.comp_def]

theorem faults_ofEntries_eq_nil_iff_forall : (ofEntries conventions entries).faults = [] ↔
    conventions.start ∈ definedNames entries ∧ ∀ name ∈ definedNames entries,
      alternativesFor conventions entries name ≠ [] ∧
        ∀ alternative ∈ alternativesFor conventions entries name, ∀ symbol ∈ alternative,
          (∀ other, symbol = .nonterminal other → other ∈ definedNames entries) ∧
            symbol ≠ .endMarker := by
  simp [faults_eq_nil_iff, names_ofEntries, rules_ofEntries, ruleFaults_eq_nil_iff]

theorem complete_of_faults_eq_nil (noFaults : (ofEntries conventions entries).faults = []) :
    Complete conventions entries := by
  obtain ⟨startKnown, perName⟩ := faults_ofEntries_eq_nil_iff_forall.mp noFaults
  have known : ∀ entry ∈ entries, entry.lhs ∈ definedNames entries := fun entry inside =>
    mem_definedNames.mpr ⟨entry, inside, rfl⟩
  refine ⟨mem_definedNames.mp startKnown, ?_, ?_, ?_⟩
  · intro entry inside
    obtain ⟨nonempty, _⟩ := perName entry.lhs (known entry inside)
    obtain ⟨alternative, listed⟩ := List.exists_mem_of_ne_nil _ nonempty
    obtain ⟨other, otherInside, sameLhs, given⟩ := mem_alternativesFor.mp listed
    exact ⟨other, otherInside, sameLhs, List.ne_nil_of_mem given⟩
  · intro entry inside alternative given name found
    have listed := mem_alternativesFor.mpr ⟨entry, inside, rfl, given⟩
    obtain ⟨defined, _⟩ := (perName entry.lhs (known entry inside)).2 alternative listed _ found
    exact mem_definedNames.mp (defined name rfl)
  · intro entry inside alternative given found
    have listed := mem_alternativesFor.mpr ⟨entry, inside, rfl, given⟩
    obtain ⟨_, notEnd⟩ := (perName entry.lhs (known entry inside)).2 alternative listed _ found
    exact notEnd rfl

theorem faults_eq_nil_of_complete (complete : Complete conventions entries) :
    (ofEntries conventions entries).faults = [] := by
  refine faults_ofEntries_eq_nil_iff_forall.mpr
    ⟨mem_definedNames.mpr complete.start_entered, fun name known => ⟨?_, ?_⟩⟩
  · obtain ⟨entry, inside, isName⟩ := mem_definedNames.mp known
    obtain ⟨other, otherInside, sameLhs, nonempty⟩ := complete.alternatives_ne_nil entry inside
    obtain ⟨alternative, given⟩ := List.exists_mem_of_ne_nil _ nonempty
    exact List.ne_nil_of_mem
      (mem_alternativesFor.mpr ⟨other, otherInside, sameLhs.trans isName, given⟩)
  · intro alternative listed symbol found
    obtain ⟨entry, inside, _, given⟩ := mem_alternativesFor.mp listed
    refine ⟨?_, ?_⟩
    · rintro other rfl
      exact mem_definedNames.mpr
        (complete.nonterminal_entered entry inside alternative given other found)
    · rintro rfl
      exact complete.endMarker_not_mem entry inside alternative given found

/-- Nothing is wrong with the entries that are complete, and only with those. -/
theorem faults_ofEntries_eq_nil_iff :
    (ofEntries conventions entries).faults = [] ↔ Complete conventions entries :=
  ⟨complete_of_faults_eq_nil, faults_eq_nil_of_complete⟩

end Draft

namespace Grammar

/-- Rules are found by their names, and symbols are what the rules make of them. -/
structure Consistent (grammar : Grammar) : Prop extends grammar.WellFormed where
  index_exact : ∀ name place, (name, place) ∈ grammar.index ↔
    ∃ rule, grammar.rules[place]? = some rule ∧ rule.lhs = name
  rule?_eq_some_iff : ∀ name rule,
    grammar.rule? name = some rule ↔ rule ∈ grammar.rules ∧ rule.lhs = name
  symbols_resolved : ∀ rule ∈ grammar.rules, ∀ production ∈ rule.productions,
    ∀ symbol ∈ production.symbols,
      (∃ name, symbol = .terminal name ∧ name ∉ grammar.nonterminals) ∨
        (∃ name, symbol = .nonterminal name ∧ name ∈ grammar.nonterminals) ∨
          symbol = .epsilon ∧ production.symbols = [.epsilon]
  terminals_exact : ∀ name, name ∈ grammar.terminals ↔
    ∃ rule ∈ grammar.rules, ∃ production ∈ rule.productions, .terminal name ∈ production.symbols

def augmentedTimes (grammar : Grammar) : Nat → Grammar
  | 0 => grammar
  | count + 1 => (grammar.augmentedTimes count).augmented.toGrammar

variable {grammar : Grammar}

theorem WellFormed.consistent (wellFormed : grammar.WellFormed) : grammar.Consistent where
  toWellFormed := wellFormed
  index_exact := by
    intro name place
    simp only [grammar.index_eq, places, List.mem_map, Prod.exists, Prod.mk.injEq,
      List.mem_zipIdx_iff_getElem?]
    constructor
    · rintro ⟨rule, _, found, isName, rfl⟩
      exact ⟨rule, found, isName⟩
    · rintro ⟨rule, found, isName⟩
      exact ⟨rule, place, found, isName, rfl⟩
  rule?_eq_some_iff := by
    intro name rule
    constructor
    · exact mem_rules_of_rule?
    · rintro ⟨inside, isName⟩
      exact isName ▸ rule?_of_mem wellFormed.nonterminals_nodup inside
  symbols_resolved := by
    intro rule inside production listed symbol found
    by_cases isEmpty : production.isEmpty
    · have asShown : production.symbols = [.epsilon] := if_pos isEmpty
      rw [asShown] at found
      exact .inr (.inr ⟨List.mem_singleton.mp found, asShown⟩)
    · rw [Production.symbols, if_neg isEmpty] at found
      have inBodies : symbol ∈ grammar.bodySymbols :=
        List.mem_flatMap.mpr ⟨rule, inside, List.mem_flatMap.mpr ⟨production, listed, found⟩⟩
      rcases wellFormed.body_resolved symbol inBodies with isTerminal | isNonterminal
      · exact .inl isTerminal
      · exact .inr (.inl isNonterminal)
  terminals_exact := by
    intro name
    simp only [wellFormed.mem_terminals, bodySymbols, List.mem_flatMap, Production.symbols]
    refine exists_congr fun rule => and_congr_right fun _ =>
      exists_congr fun production => and_congr_right fun _ => ?_
    split
    · rename_i isEmpty
      simp [List.isEmpty_iff.mp isEmpty]
    · rfl

theorem WellFormed.augmentedTimes (wellFormed : grammar.WellFormed) (count : Nat) :
    (grammar.augmentedTimes count).WellFormed := by
  induction count with
  | zero => exact wellFormed
  | succ count ih => exact ih.augmented

theorem terminals_augmentedTimes (grammar : Grammar) (count : Nat) :
    (grammar.augmentedTimes count).terminals = grammar.terminals := by
  induction count with
  | zero => rfl
  | succ count ih => exact (terminals_augmented _).trans ih

end Grammar

namespace Draft

/-- The terminals are the symbols entered as terminals for whose names there are no entries. -/
theorem mem_terminals_ofEntries :
    name ∈ (ofEntries conventions entries).terminals ↔ name ∉ definedNames entries ∧
      ∃ entry ∈ entries, ∃ alternative ∈ entry.alternatives conventions,
        .terminal name ∈ alternative := by
  rw [mem_terminals, names_ofEntries, rules_ofEntries]
  simp only [List.mem_map, exists_exists_and_eq_and, mem_alternativesFor]
  refine and_congr_right fun _ => ⟨?_, ?_⟩
  · rintro ⟨_, _, alternative, ⟨entry, inside, _, listed⟩, found⟩
    exact ⟨entry, inside, alternative, listed, found⟩
  · rintro ⟨entry, inside, alternative, listed, found⟩
    exact ⟨entry.lhs, mem_definedNames.mpr ⟨entry, inside, rfl⟩, alternative,
      ⟨entry, inside, rfl, listed⟩, found⟩

/--
Entries are merged by name.  They make a grammar when they are complete, and are refused for the
first of their faults otherwise.  What they make is consistent, however often it is augmented.
-/
theorem build_ofEntries (conventions : Conventions) (entries : List Entry) :
    (ofEntries conventions entries).rules = (definedNames entries).map (fun name =>
      (name, alternativesFor conventions entries name)) ∧
    ((∃ grammar, (ofEntries conventions entries).build = .ok grammar) ↔
      Complete conventions entries) ∧
    (∀ fault, (ofEntries conventions entries).build = .error fault ↔
      (ofEntries conventions entries).faults.head? = some fault) ∧
    ∀ grammar, (ofEntries conventions entries).build = .ok grammar →
      grammar.conventions = conventions ∧
      grammar.rules = (definedNames entries).map (fun name =>
        settleRule (definedNames entries) name (alternativesFor conventions entries name)) ∧
      (∀ name, name ∈ grammar.terminals ↔ name ∉ definedNames entries ∧
        ∃ entry ∈ entries, ∃ alternative ∈ entry.alternatives conventions,
          .terminal name ∈ alternative) ∧
      ∀ count, (grammar.augmentedTimes count).Consistent ∧
        (grammar.augmentedTimes count).terminals = grammar.terminals := by
  refine ⟨rules_ofEntries conventions entries, ?_, fun fault => build_eq_error_iff, ?_⟩
  · simp only [build_eq_ok_iff, exists_and_left, exists_eq', and_true]
    exact faults_ofEntries_eq_nil_iff
  · intro grammar built
    have wellFormed := wellFormed_of_build (collected_ofEntries conventions entries) built
    obtain ⟨_, isSettled⟩ := build_eq_ok_iff.mp built
    refine ⟨?_, ?_, ?_, ?_⟩
    · rw [← isSettled]
      exact conventions_ofEntries conventions entries
    · rw [← isSettled]
      exact rules_settled conventions entries
    · intro name
      rw [← isSettled]
      exact mem_terminals_ofEntries
    · exact fun count => ⟨(wellFormed.augmentedTimes count).consistent,
        grammar.terminals_augmentedTimes count⟩

/-- Rules are looked at in the order in which they are entered. -/
example : (ofEntries {} [.symbols "S" [], .words "A" [['$', 'B']]]).build =
    .error (.emptyRule "S") := rfl

/-- Entries of which two are for one name, and the last is for a name used before. -/
def scatteredEntries : List Entry :=
  [.words "S" [['a', 'B']], .symbols "B" [[.terminal "b"]], .words "S" [['c', 'e', 'B'], ['e']],
    .symbols "c" [[.terminal "d"]]]

def gathered : Grammar :=
  .ofRules {}
    [⟨"S", [⟨[.terminal "a", .nonterminal "B"]⟩, ⟨[.nonterminal "c", .nonterminal "B"]⟩, ⟨[]⟩]⟩,
      ⟨"B", [⟨[.terminal "b"]⟩]⟩, ⟨"c", [⟨[.terminal "d"]⟩]⟩]

theorem build_scatteredEntries : (ofEntries {} scatteredEntries).build = .ok gathered := by
  decide +kernel

theorem build_ofEntries_scattered :
    Complete {} scatteredEntries ∧ (ofEntries {} scatteredEntries).build = .ok gathered ∧
      "c" ∉ gathered.terminals ∧ (gathered.augmentedTimes 2).Consistent := by
  obtain ⟨_, complete, _, settled⟩ := build_ofEntries {} scatteredEntries
  obtain ⟨_, _, terminals, consistent⟩ := settled gathered build_scatteredEntries
  refine ⟨complete.mp ⟨gathered, build_scatteredEntries⟩, build_scatteredEntries, ?_,
    (consistent 2).1⟩
  intro inside
  exact ((terminals "c").mp inside).1 (by decide)

end Draft

end Lookahead
