import Lookahead.Grammar.Draft
import Mathlib.Logic.Basic

/-!
# What is wrong with a draft

Building a draft stops at the first fault.  Listing every fault in the order in
which it is looked for says the same without stopping: a draft can be built when
the list is empty, and otherwise its head is the answer.
-/

namespace Lookahead

def unlessFaulty {ε α : Type} (faults : List ε) (value : α) : Except ε α :=
  match faults with
  | [] => .ok value
  | fault :: _ => .error fault

section UnlessFaulty

variable {ε α β : Type} {faults : List ε} {value result : α} {fault : ε}

theorem unlessFaulty_eq_ok_iff :
    unlessFaulty faults value = .ok result ↔ faults = [] ∧ value = result := by
  cases faults <;> simp [unlessFaulty]

theorem unlessFaulty_eq_error_iff :
    unlessFaulty faults value = .error fault ↔ faults.head? = some fault := by
  cases faults <;> simp [unlessFaulty]

theorem unlessFaulty_bind_pure (faults : List ε) (value : α) (next : α → β) :
    (unlessFaulty faults value >>= fun found => pure (next found)) =
      unlessFaulty faults (next value) := by
  cases faults <;> rfl

/-- Checking values one by one stops at the first fault of all. -/
theorem mapM_unlessFaulty (faultsOf : α → List ε) (settled : α → β) (values : List α) :
    values.mapM (fun value => unlessFaulty (faultsOf value) (settled value)) =
      unlessFaulty (values.flatMap faultsOf) (values.map settled) := by
  induction values with
  | nil => rfl
  | cons head rest ih =>
      rw [List.mapM_cons, ih, List.flatMap_cons, List.map_cons]
      cases faultsOf head with
      | nil => exact unlessFaulty_bind_pure _ _ _
      | cons fault others => rfl

end UnlessFaulty

namespace Draft

def settle (names : List Name) : Symbol → Symbol
  | .terminal name => if name ∈ names then .nonterminal name else .terminal name
  | symbol => symbol

def symbolFaults (names : List Name) (lhs : Name) : Symbol → List GrammarError
  | .nonterminal name => if name ∈ names then [] else [.undefinedNonterminal name]
  | .endMarker => [.endMarkerInRule lhs]
  | .terminal _ | .epsilon => []

def settleRule (names : List Name) (lhs : Name) (alternatives : List (List Symbol)) : Rule :=
  ⟨lhs, alternatives.map fun alternative => .ofSymbols (alternative.map (settle names))⟩

/-- What is wrong with a rule: no alternative, or faults of its symbols from left to right. -/
def ruleFaults (names : List Name) (lhs : Name) (alternatives : List (List Symbol)) :
    List GrammarError :=
  (if alternatives = [] then [.emptyRule lhs] else []) ++
    alternatives.flatMap fun alternative => alternative.flatMap (symbolFaults names lhs)

/-- Everything wrong with a draft, in the order in which it is looked for. -/
def faults (draft : Draft) : List GrammarError :=
  (if draft.conventions.start ∈ draft.names then []
    else [.missingStart draft.conventions.start]) ++
    draft.rules.flatMap fun (lhs, alternatives) => ruleFaults draft.names lhs alternatives

def settled (draft : Draft) : Grammar :=
  .indexed draft.conventions
    (draft.rules.map fun (lhs, alternatives) => settleRule draft.names lhs alternatives) draft.terminals

variable {names : List Name} {lhs : Name}

theorem settle_eq_terminal_iff {symbol : Symbol} {name : Name} :
    settle names symbol = .terminal name ↔ symbol = .terminal name ∧ name ∉ names := by
  cases symbol with
  | terminal other =>
      by_cases known : other ∈ names
      · simp only [settle, known, if_true, reduceCtorEq, false_iff, Symbol.terminal.injEq]
        exact fun both => both.2 (both.1 ▸ known)
      · simp only [settle, known, if_false, Symbol.terminal.injEq]
        exact ⟨fun same => ⟨same, same ▸ known⟩, And.left⟩
  | nonterminal other => simp [settle]
  | epsilon => simp [settle]
  | endMarker => simp [settle]

theorem settle_eq_epsilon_iff {symbol : Symbol} :
    settle names symbol = .epsilon ↔ symbol = .epsilon := by
  cases symbol with
  | terminal name => by_cases known : name ∈ names <;> simp [settle, known]
  | nonterminal name => simp [settle]
  | epsilon => simp [settle]
  | endMarker => simp [settle]

@[simp]
theorem text_settle (names : List Name) (symbol : Symbol) : (settle names symbol).text = symbol.text := by
  cases symbol with
  | terminal name => by_cases known : name ∈ names <;> simp [settle, known, Symbol.text]
  | nonterminal name => rfl
  | epsilon => rfl
  | endMarker => rfl

theorem resolve_eq (symbol : Symbol) :
    resolve names lhs symbol = unlessFaulty (symbolFaults names lhs symbol) (settle names symbol) := by
  cases symbol with
  | terminal name => rfl
  | nonterminal name =>
      simp only [resolve, symbolFaults, settle]
      split <;> rfl
  | epsilon => rfl
  | endMarker => rfl

theorem resolveRule_eq (alternatives : List (List Symbol)) :
    resolveRule names lhs alternatives =
      unlessFaulty (ruleFaults names lhs alternatives) (settleRule names lhs alternatives) := by
  have symbolwise : resolve names lhs = fun symbol =>
      unlessFaulty (symbolFaults names lhs symbol) (settle names symbol) := funext resolve_eq
  cases alternatives with
  | nil => rfl
  | cons first others =>
      have nonempty : ¬ (first :: others).isEmpty = true := Bool.false_ne_true
      rw [resolveRule, if_neg nonempty, ruleFaults, if_neg (List.cons_ne_nil first others),
        List.nil_append, symbolwise]
      simp only [mapM_unlessFaulty]
      rw [unlessFaulty_bind_pure, List.map_map]
      rfl

/-- Building gives the settled grammar unless something is wrong, and then the first fault. -/
theorem build_eq (draft : Draft) : draft.build = unlessFaulty draft.faults draft.settled := by
  unfold build faults
  split
  · simp only [resolveRule_eq, mapM_unlessFaulty]
    rw [unlessFaulty_bind_pure, List.nil_append]
    rfl
  · rfl

theorem build_eq_ok_iff {draft : Draft} {grammar : Grammar} :
    draft.build = .ok grammar ↔ draft.faults = [] ∧ draft.settled = grammar := by
  rw [build_eq, unlessFaulty_eq_ok_iff]

theorem build_eq_error_iff {draft : Draft} {fault : GrammarError} :
    draft.build = .error fault ↔ draft.faults.head? = some fault := by
  rw [build_eq, unlessFaulty_eq_error_iff]

theorem nonterminals_settled (draft : Draft) : draft.settled.nonterminals = draft.names := by
  simp only [Grammar.nonterminals, settled, Grammar.rules_indexed, List.map_map, names]
  rfl

theorem mem_bodySymbols_settled {draft : Draft} {symbol : Symbol} :
    symbol ∈ draft.settled.bodySymbols ↔ symbol ≠ .epsilon ∧ ∃ rule ∈ draft.rules,
      ∃ alternative ∈ rule.2, ∃ written ∈ alternative, settle draft.names written = symbol := by
  simp only [Grammar.bodySymbols, settled, Grammar.rules_indexed, settleRule, List.mem_flatMap,
    List.mem_map, exists_exists_and_eq_and, Production.mem_ofSymbols]
  constructor
  · rintro ⟨rule, inside, alternative, listed, written, solid⟩
    exact ⟨solid, rule, inside, alternative, listed, written⟩
  · rintro ⟨solid, rule, inside, alternative, listed, written⟩
    exact ⟨rule, inside, alternative, listed, written, solid⟩

/-- The names met as terminals are the terminals of the bodies. -/
theorem terminals_settled_exact (draft : Draft) (name : Name) :
    name ∈ draft.settled.terminals ↔ .terminal name ∈ draft.settled.bodySymbols := by
  simp only [mem_bodySymbols_settled, settle_eq_terminal_iff]
  refine (draft.mem_terminals name).trans ⟨?_, ?_⟩
  · rintro ⟨unknown, rule, inside, alternative, listed, found⟩
    exact ⟨Symbol.noConfusion, rule, inside, alternative, listed, _, found, rfl, unknown⟩
  · rintro ⟨_, rule, inside, alternative, listed, _, found, rfl, unknown⟩
    exact ⟨unknown, rule, inside, alternative, listed, found⟩

theorem symbolFaults_eq_nil_iff {symbol : Symbol} : symbolFaults names lhs symbol = [] ↔
    (∀ name, symbol = .nonterminal name → name ∈ names) ∧ symbol ≠ .endMarker := by
  cases symbol <;> simp [symbolFaults]

theorem ruleFaults_eq_nil_iff {alternatives : List (List Symbol)} :
    ruleFaults names lhs alternatives = [] ↔ alternatives ≠ [] ∧
      ∀ alternative ∈ alternatives, ∀ symbol ∈ alternative,
        (∀ name, symbol = .nonterminal name → name ∈ names) ∧ symbol ≠ .endMarker := by
  simp [ruleFaults, symbolFaults_eq_nil_iff]

theorem faults_eq_nil_iff {draft : Draft} : draft.faults = [] ↔
    draft.conventions.start ∈ draft.names ∧
      ∀ entry ∈ draft.rules, ruleFaults draft.names entry.1 entry.2 = [] := by
  simp [faults]

theorem settle_resolved {symbol : Symbol}
    (known : ∀ name, symbol = .nonterminal name → name ∈ names) (notEnd : symbol ≠ .endMarker)
    (solid : settle names symbol ≠ .epsilon) :
    (∃ name, settle names symbol = .terminal name ∧ name ∉ names) ∨
      ∃ name, settle names symbol = .nonterminal name ∧ name ∈ names := by
  cases symbol with
  | terminal name =>
      by_cases hasRule : name ∈ names
      · exact .inr ⟨name, if_pos hasRule, hasRule⟩
      · exact .inl ⟨name, if_neg hasRule, hasRule⟩
  | nonterminal name => exact .inr ⟨name, rfl, known name rfl⟩
  | epsilon => exact absurd rfl solid
  | endMarker => exact absurd rfl notEnd

/-- The settled grammar is well formed when nothing is wrong with the draft. -/
theorem wellFormed_settled {draft : Draft} (nodup : draft.names.Nodup)
    (noFaults : draft.faults = []) : draft.settled.WellFormed := by
  obtain ⟨startKnown, perRule⟩ := faults_eq_nil_iff.mp noFaults
  refine ⟨draft.nonterminals_settled ▸ startKnown, draft.nonterminals_settled ▸ nodup, ?_, ?_,
    draft.terminals_settled_exact⟩
  · intro rule inside isNil
    obtain ⟨entry, listed, rfl⟩ := List.mem_map.mp inside
    exact (ruleFaults_eq_nil_iff.mp (perRule entry listed)).1 (List.map_eq_nil_iff.mp isNil)
  · intro symbol inside
    obtain ⟨solid, rule, ruleInside, alternative, listed, written, found, rfl⟩ :=
      mem_bodySymbols_settled.mp inside
    rw [nonterminals_settled]
    obtain ⟨_, clean⟩ := ruleFaults_eq_nil_iff.mp (perRule rule ruleInside)
    obtain ⟨known, notEnd⟩ := clean alternative listed written found
    exact settle_resolved known notEnd solid

end Draft

end Lookahead
