import Lookahead.First
import Lookahead.Proofs.Grammar.Productions
import Lookahead.Proofs.Grammar.Yield

/-!
# FIRST sets and derivations

The passes end in the least family that is closed under the productions, and
that family holds exactly the symbols with which derived words can begin.
-/

namespace Lookahead

namespace SetFamily

theorem get_eq_of_get? {family : SetFamily} {name : Name} {set : SymbolSet}
    (found : family.get? name = some set) : family.get name = set := by
  rw [get, found, Option.getD_some]

theorem get?_ofNames (names : List Name) (name : Name) :
    (ofNames names).get? name = if name ∈ names then some ∅ else none := by
  unfold get? ofNames
  induction names with
  | nil => simp
  | cons head rest ih =>
      simp only [List.map_cons, List.find?_cons, List.mem_cons]
      by_cases here : head = name
      · simp [here]
      · have different : ¬ name = head := fun same => here same.symm
        simpa only [here, decide_false, different, false_or] using ih

theorem get?_ofNames_ne_none_iff (names : List Name) (name : Name) :
    (ofNames names).get? name ≠ none ↔ name ∈ names := by
  rw [get?_ofNames]
  split
  · simp_all
  · simp_all

theorem get_extend (family : SetFamily) (name other : Name) (symbols : SymbolSet) (symbol : Symbol) :
    symbol ∈ (family.extend name symbols).get other ↔ symbol ∈ family.get other ∨
      other = name ∧ family.get? other ≠ none ∧ symbol ∈ symbols := by
  unfold get
  rw [get?_extend]
  by_cases isName : other = name
  · cases found : family.get? other with
    | none => simp [isName]
    | some set => simp [isName]
  · simp [isName]

theorem get?_extend_ne_none_iff (family : SetFamily) (name other : Name) (symbols : SymbolSet) :
    (family.extend name symbols).get? other ≠ none ↔ family.get? other ≠ none := by
  rw [get?_extend]
  by_cases isName : other = name
  · simp [isName]
  · simp [isName]

section Uniform

variable {family first second : SetFamily}

/-- Each entry, not only the first one of its name, holds the set of its name. -/
def Uniform (family : SetFamily) : Prop :=
  ∀ entry ∈ family.entries, family.get? entry.1 = some entry.2

theorem uniform_ofNames (names : List Name) : (ofNames names).Uniform := by
  intro entry inside
  obtain ⟨name, known, same⟩ := List.mem_map.mp inside
  subst same
  rw [get?_ofNames, if_pos known]

theorem Uniform.extend (uniform : family.Uniform) (name : Name) (symbols : SymbolSet) :
    (family.extend name symbols).Uniform := by
  intro entry inside
  obtain ⟨source, found, same⟩ := List.mem_map.mp inside
  have isSet := uniform source found
  split at same
  · rename_i isName
    subst same
    rw [get?_extend, if_pos isName, isSet, Option.map_some]
  · rename_i notName
    subst same
    rw [get?_extend, if_neg notName, isSet]

theorem EntriesLe.eq_of_forall {lower upper : List (Name × SymbolSet)} (le : EntriesLe lower upper)
    (within : ∀ name small large, (name, small) ∈ lower → (name, large) ∈ upper → large ⊆ small) :
    lower = upper := by
  induction le with
  | nil => rfl
  | @cons name small large rest others head _ ih =>
      have same : small = large := SortedSet.ext fun symbol =>
        ⟨head symbol, within name small large List.mem_cons_self List.mem_cons_self symbol⟩
      rw [same, ih fun name small large lower upper =>
        within name small large (List.mem_cons_of_mem _ lower) (List.mem_cons_of_mem _ upper)]

/-- A family that grows in none of its sets is the same family. -/
theorem Uniform.eq_of_le (uniform : first.Uniform) (upper : second.Uniform) (le : first ≤ second)
    (within : ∀ name, second.get name ⊆ first.get name) : first = second := by
  refine congrArg SetFamily.mk (EntriesLe.eq_of_forall le ?_)
  intro name small large inFirst inSecond
  have included := within name
  rwa [get_eq_of_get? (uniform _ inFirst), get_eq_of_get? (upper _ inSecond)] at included

end Uniform

section FirstOf

variable (family : SetFamily)

theorem mem_firstOf_nil (symbol : Symbol) : symbol ∈ family.firstOf [] ↔ symbol = .epsilon :=
  SortedSet.mem_singleton _ _

theorem mem_firstOf_input {head : Symbol} (isInput : head.isInput = true) (rest : List Symbol)
    (symbol : Symbol) : symbol ∈ family.firstOf (head :: rest) ↔ symbol = head := by
  rcases Symbol.eq_of_isInput isInput with ⟨name, isTerminal⟩ | isEnd
  · subst isTerminal
    exact SortedSet.mem_singleton _ _
  · subst isEnd
    exact SortedSet.mem_singleton _ _

theorem mem_firstOf_nonterminal (name : Name) (rest : List Symbol) (symbol : Symbol) :
    symbol ∈ family.firstOf (.nonterminal name :: rest) ↔
      (symbol ∈ family.get name ∧ symbol ≠ .epsilon) ∨
        (.epsilon ∈ family.get name ∧ symbol ∈ family.firstOf rest) := by
  rw [firstOf, get]
  cases family.get? name with
  | none => simp
  | some first =>
      simp only [Option.getD_some]
      split
      · rename_i vanishes
        simp [vanishes]
      · rename_i solid
        simp only [solid, false_and, or_false]
        constructor
        · intro inside
          exact ⟨inside, fun same => solid (same ▸ inside)⟩
        · exact And.left

/-- FIRST of two parts is that of the first, and that of the second where the first vanishes. -/
theorem mem_firstOf_append (left right : List Symbol) (symbol : Symbol) :
    symbol ∈ family.firstOf (left ++ right) ↔
      (symbol ∈ family.firstOf left ∧ symbol ≠ .epsilon) ∨
        (.epsilon ∈ family.firstOf left ∧ symbol ∈ family.firstOf right) := by
  induction left generalizing symbol with
  | nil => simp [mem_firstOf_nil]
  | cons head rest ih =>
      rw [List.cons_append]
      cases head with
      | nonterminal name =>
          rw [mem_firstOf_nonterminal, mem_firstOf_nonterminal, mem_firstOf_nonterminal, ih]
          grind
      | epsilon => exact ih symbol
      | terminal name =>
          rw [mem_firstOf_input family rfl, mem_firstOf_input family rfl,
            mem_firstOf_input family rfl]
          grind
      | endMarker =>
          rw [mem_firstOf_input family rfl, mem_firstOf_input family rfl,
            mem_firstOf_input family rfl]
          grind

end FirstOf

end SetFamily

namespace Grammar

variable {grammar : Grammar}

/-- A symbol begins a word that a sequence derives; the empty-word symbol, if it vanishes. -/
def InFirst (grammar : Grammar) (symbols : List Symbol) (symbol : Symbol) : Prop :=
  (symbol = .epsilon ∧ grammar.Yields symbols []) ∨
    (symbol ≠ .epsilon ∧ grammar.Leads symbols [symbol])

def FirstClosed (grammar : Grammar) (family : SetFamily) : Prop :=
  ∀ name index production, grammar.production? name index = some production →
    family.firstOf production.body ⊆ family.get name

def FirstSound (grammar : Grammar) (family : SetFamily) : Prop :=
  ∀ name symbol, symbol ∈ family.get name → grammar.InFirst [.nonterminal name] symbol

theorem InFirst.expand {name : Name} {index : Nat} {production : Production} {symbol : Symbol}
    (found : grammar.production? name index = some production)
    (inFirst : grammar.InFirst production.body symbol) :
    grammar.InFirst [.nonterminal name] symbol := by
  rcases inFirst with ⟨isEpsilon, vanishes⟩ | ⟨solid, leads⟩
  · exact .inl ⟨isEpsilon, vanishes.single found⟩
  · exact .inr ⟨solid, .inside [] found leads⟩

/-- FIRST of a sequence is sound when the sets of its nonterminals are. -/
theorem FirstSound.inFirst {family : SetFamily} (sound : grammar.FirstSound family)
    {symbols : List Symbol} (solid : Symbol.epsilon ∉ symbols) {symbol : Symbol}
    (inside : symbol ∈ family.firstOf symbols) : grammar.InFirst symbols symbol := by
  induction symbols generalizing symbol with
  | nil => exact .inl ⟨(family.mem_firstOf_nil symbol).mp inside, .nil⟩
  | cons head rest ih =>
      have restSolid : Symbol.epsilon ∉ rest := fun found => solid (List.mem_cons_of_mem _ found)
      cases head with
      | epsilon => exact absurd List.mem_cons_self solid
      | terminal name =>
          have same := (family.mem_firstOf_input rfl rest symbol).mp inside
          subst same
          exact .inr ⟨Symbol.noConfusion, .input rfl (.nil rest)⟩
      | endMarker =>
          have same := (family.mem_firstOf_input rfl rest symbol).mp inside
          subst same
          exact .inr ⟨Symbol.noConfusion, .input rfl (.nil rest)⟩
      | nonterminal name =>
          rcases (family.mem_firstOf_nonterminal name rest symbol).mp inside with
            ⟨ofName, notEpsilon⟩ | ⟨vanishes, ofRest⟩
          · rcases sound name symbol ofName with ⟨isEpsilon, _⟩ | ⟨_, leads⟩
            · exact absurd isEpsilon notEpsilon
            · exact .inr ⟨notEpsilon, leads.append_right rest⟩
          · rcases sound name .epsilon vanishes with ⟨_, nothing⟩ | ⟨notEpsilon, _⟩
            · rcases ih restSolid ofRest with ⟨isEpsilon, restNothing⟩ | ⟨notEpsilon, leads⟩
              · exact .inl ⟨isEpsilon, nothing.append restNothing⟩
              · exact .inr ⟨notEpsilon, nothing.leads_append leads⟩
            · exact absurd rfl notEpsilon

theorem ne_epsilon_of_isInput {symbol : Symbol} (isInput : symbol.isInput = true) :
    symbol ≠ .epsilon := by
  intro same
  subst same
  cases isInput

namespace FirstClosed

variable {family : SetFamily}

/-- FIRST of a sequence holds the first symbol of every word that it yields. -/
theorem headD_mem_firstOf (closed : grammar.FirstClosed family) {symbols word : List Symbol}
    (yields : grammar.Yields symbols word) : word.headD .epsilon ∈ family.firstOf symbols := by
  induction yields with
  | nil => exact (family.mem_firstOf_nil _).mpr rfl
  | input isInput _ _ => exact (family.mem_firstOf_input isInput _ _).mpr rfl
  | @expand name index production rest first second found body _ bodyIH tailIH =>
      rw [SetFamily.mem_firstOf_nonterminal]
      have inSet := closed name index production found _ bodyIH
      cases first with
      | nil => exact .inr ⟨inSet, tailIH⟩
      | cons head others =>
          exact .inl ⟨inSet, ne_epsilon_of_isInput (body.isInput head List.mem_cons_self)⟩

/-- FIRST of a sequence holds the first symbol of every word that it leads to. -/
theorem mem_firstOf_of_leads (closed : grammar.FirstClosed family) {symbols word rest : List Symbol}
    {symbol : Symbol} (leads : grammar.Leads symbols word) (begins : word = symbol :: rest) :
    symbol ∈ family.firstOf symbols := by
  induction leads generalizing rest with
  | nil symbols => exact absurd begins (by simp)
  | input isInput _ _ =>
      rw [family.mem_firstOf_input isInput]
      exact (List.cons.inj begins).1.symm
  | @inside name index production word after found body ih =>
      rw [SetFamily.mem_firstOf_nonterminal]
      refine .inl ⟨closed name index production found _ (ih begins), ?_⟩
      exact ne_epsilon_of_isInput (body.isInput symbol (begins ▸ List.mem_cons_self))
  | @past name index production after first second found body tail goesOn ih =>
      rw [SetFamily.mem_firstOf_nonterminal]
      have inSet := closed name index production found _ (closed.headD_mem_firstOf body)
      cases first with
      | nil => exact .inr ⟨inSet, ih begins⟩
      | cons head others =>
          have same : head = symbol := (List.cons.inj begins).1
          subst same
          exact .inl ⟨inSet, ne_epsilon_of_isInput (body.isInput head List.mem_cons_self)⟩

theorem mem_firstOf (closed : grammar.FirstClosed family) {symbols : List Symbol} {symbol : Symbol}
    (inFirst : grammar.InFirst symbols symbol) : symbol ∈ family.firstOf symbols := by
  rcases inFirst with ⟨isEpsilon, vanishes⟩ | ⟨_, leads⟩
  · exact isEpsilon ▸ closed.headD_mem_firstOf vanishes
  · exact closed.mem_firstOf_of_leads leads rfl

end FirstClosed

/-! ## The family that the passes find -/

/-- Whatever every pass keeps holds at the end of the passes. -/
theorem firstLimit_induction {P : SetFamily → Prop} (pass : ∀ family, P family →
    P (grammar.firstPass family)) (family : SetFamily) (initial : P family) :
    P (grammar.firstLimit family).1 := by
  fun_induction firstLimit grammar family with
  | case1 => exact initial
  | case2 family _ _ _ _ ih => simp_all

theorem firstPass_firstLimit (grammar : Grammar) (family : SetFamily) :
    grammar.firstPass (grammar.firstLimit family).1 = (grammar.firstLimit family).1 := by
  fun_induction firstLimit grammar family with
  | case1 _ fixed => exact fixed
  | case2 family _ _ _ _ ih => simp_all

/-- A pass that adds nothing adds nothing for any of its productions. -/
theorem firstStep_eq_of_foldl_eq {family : SetFamily} {productions : List (Name × Nat × Production)}
    (fixed : productions.foldl firstStep family = family) :
    ∀ production ∈ productions, firstStep family production = family := by
  induction productions with
  | nil => exact List.forall_mem_nil _
  | cons head rest ih =>
      rw [List.foldl_cons] at fixed
      have lower : family ≤ firstStep family head := family.le_extend _ _
      have upper : firstStep family head ≤ family := by
        have grown := le_foldl_firstStep (firstStep family head) rest
        rwa [fixed] at grown
      have same : firstStep family head = family :=
        (SetFamily.eq_of_le_of_total_le lower (SetFamily.EntriesLe.total_le upper)).symm
      rw [same] at fixed
      intro production inside
      rcases List.mem_cons.mp inside with here | later
      · exact here ▸ same
      · exact ih fixed production later

theorem get?_firstPass_ne_none_iff (grammar : Grammar) (family : SetFamily) (name : Name) :
    (grammar.firstPass family).get? name ≠ none ↔ family.get? name ≠ none := by
  unfold firstPass
  induction grammar.indexedProductions generalizing family with
  | nil => exact Iff.rfl
  | cons head rest ih =>
      rw [List.foldl_cons, ih]
      exact family.get?_extend_ne_none_iff _ _ _

theorem get?_firstComputation_ne_none_iff (grammar : Grammar) (name : Name) :
    grammar.firstComputation.1.get? name ≠ none ↔ name ∈ grammar.nonterminals := by
  refine firstLimit_induction
    (P := fun family => family.get? name ≠ none ↔ name ∈ grammar.nonterminals) ?_ _ ?_
  · intro family ih
    exact (get?_firstPass_ne_none_iff grammar family name).trans ih
  · exact SetFamily.get?_ofNames_ne_none_iff _ _

theorem get?_firstComputation_ne_none {name : Name} (known : name ∈ grammar.nonterminals) :
    grammar.firstComputation.1.get? name ≠ none :=
  (get?_firstComputation_ne_none_iff grammar name).mpr known

theorem firstClosed_firstComputation (wellFormed : grammar.WellFormed) :
    grammar.FirstClosed grammar.firstComputation.1 := by
  intro name index production found symbol inside
  have listed := (mem_indexedProductions wellFormed.nonterminals_nodup).mpr found
  have fixed := firstStep_eq_of_foldl_eq
    (firstPass_firstLimit grammar (.ofNames grammar.nonterminals)) _ listed
  have defined := get?_firstComputation_ne_none (mem_nonterminals_of_production? found)
  have extended := (SetFamily.get_extend grammar.firstComputation.1 name name
    (grammar.firstComputation.1.firstOf production.body) symbol).mpr (.inr ⟨rfl, defined, inside⟩)
  exact fixed ▸ extended

theorem FirstSound.firstStep (wellFormed : grammar.WellFormed) {family : SetFamily}
    (sound : grammar.FirstSound family) {production : Name × Nat × Production}
    (listed : production ∈ grammar.indexedProductions) :
    grammar.FirstSound (Grammar.firstStep family production) := by
  obtain ⟨lhs, index, body⟩ := production
  have found := (mem_indexedProductions wellFormed.nonterminals_nodup).mp listed
  intro name symbol inside
  rcases (family.get_extend lhs name (family.firstOf body.body) symbol).mp inside with
    old | ⟨isName, _, new⟩
  · exact sound name symbol old
  · subst isName
    exact InFirst.expand found (sound.inFirst (wellFormed.epsilon_not_mem_body found) new)

theorem FirstSound.foldl_firstStep (wellFormed : grammar.WellFormed) {family : SetFamily}
    (sound : grammar.FirstSound family) {productions : List (Name × Nat × Production)}
    (listed : ∀ production ∈ productions, production ∈ grammar.indexedProductions) :
    grammar.FirstSound (productions.foldl Grammar.firstStep family) := by
  induction productions generalizing family with
  | nil => exact sound
  | cons head rest ih =>
      rw [List.foldl_cons]
      exact ih (sound.firstStep wellFormed (listed head List.mem_cons_self))
        fun production inside => listed production (List.mem_cons_of_mem _ inside)

theorem firstSound_firstComputation (wellFormed : grammar.WellFormed) :
    grammar.FirstSound grammar.firstComputation.1 := by
  refine firstLimit_induction (P := grammar.FirstSound) ?_ _ ?_
  · intro family sound
    exact sound.foldl_firstStep wellFormed fun _ inside => inside
  · intro name symbol inside
    rw [SetFamily.get, SetFamily.get?_ofNames] at inside
    split at inside
    · exact absurd inside (SortedSet.not_mem_empty symbol)
    · exact absurd inside (SortedSet.not_mem_empty symbol)

/-- FIRST of a sequence holds exactly the symbols with which its words can begin. -/
theorem mem_ofSequence_iff_inFirst (wellFormed : grammar.WellFormed) {symbols : List Symbol}
    (solid : Symbol.epsilon ∉ symbols) (symbol : Symbol) :
    symbol ∈ grammar.firstSets.ofSequence symbols ↔ grammar.InFirst symbols symbol :=
  ⟨(firstSound_firstComputation wellFormed).inFirst solid,
    (firstClosed_firstComputation wellFormed).mem_firstOf⟩

end Grammar

end Lookahead
