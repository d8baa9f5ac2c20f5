import Lookahead.Grammar.Basic
import Lookahead.Grammar.Error

/-!
# Grammars under construction

A draft collects rules whose symbols are not resolved yet.  Building it checks
the rules and decides which names are nonterminals: those with a rule.
-/

namespace Lookahead

/-- Rules in order of first definition, with their alternatives as written. -/
structure Draft where
  conventions : Conventions
  rules : List (Name × List (List Symbol)) := []
  deriving DecidableEq, Inhabited

namespace Draft

def names (draft : Draft) : List Name := draft.rules.map Prod.fst

/-- Append alternatives to the rule of a name, or a new rule after all others. -/
def addTo (lhs : Name) (alternatives : List (List Symbol)) :
    List (Name × List (List Symbol)) → List (Name × List (List Symbol))
  | [] => [(lhs, alternatives)]
  | (name, existing) :: rest =>
      if name = lhs then (name, existing ++ alternatives) :: rest
      else (name, existing) :: addTo lhs alternatives rest

def add (draft : Draft) (lhs : Name) (alternatives : List (List Symbol)) : Draft :=
  { draft with rules := addTo lhs alternatives draft.rules }

def addWritten (draft : Draft) (lhs : Name) (alternatives : List (List Char)) : Draft :=
  draft.add lhs (alternatives.map fun word => word.map draft.conventions.classify)

/-- Decide what a symbol in a rule for `lhs` stands for when `names` have rules. -/
def resolve (names : List Name) (lhs : Name) : Symbol → Except GrammarError Symbol
  | .terminal name => .ok (if name ∈ names then .nonterminal name else .terminal name)
  | .nonterminal name =>
      if name ∈ names then .ok (.nonterminal name) else .error (.undefinedNonterminal name)
  | .epsilon => .ok .epsilon
  | .endMarker => .error (.endMarkerInRule lhs)

def resolveRule (names : List Name) (lhs : Name) (alternatives : List (List Symbol)) :
    Except GrammarError Rule :=
  if alternatives.isEmpty then .error (.emptyRule lhs)
  else do
    let resolved ← alternatives.mapM fun alternative => alternative.mapM (resolve names lhs)
    return ⟨lhs, resolved.map Production.ofSymbols⟩

def terminal? (names : List Name) : Symbol → Option Name
  | .terminal name => if name ∈ names then none else some name
  | .nonterminal _ | .epsilon | .endMarker => none

/-- The names that are met as terminals while all symbols are resolved. -/
def terminals (draft : Draft) : SortedSet Name :=
  .ofList (draft.rules.flatMap fun (_, alternatives) =>
    alternatives.flatten.filterMap (terminal? draft.names))

/-- The grammar of a draft, or the first fault: a missing start, then rule by rule. -/
def build (draft : Draft) : Except GrammarError Grammar :=
  if draft.conventions.start ∈ draft.names then do
    let rules ← draft.rules.mapM fun (lhs, alternatives) =>
      resolveRule draft.names lhs alternatives
    return .indexed draft.conventions rules draft.terminals
  else .error (.missingStart draft.conventions.start)

theorem terminal?_eq_some_iff {names : List Name} {symbol : Symbol} {name : Name} :
    terminal? names symbol = some name ↔ symbol = .terminal name ∧ name ∉ names := by
  cases symbol with
  | terminal other =>
      simp only [terminal?, Option.ite_none_left_eq_some, Option.some.injEq, Symbol.terminal.injEq]
      constructor
      · rintro ⟨unknown, rfl⟩
        exact ⟨rfl, unknown⟩
      · rintro ⟨rfl, unknown⟩
        exact ⟨unknown, rfl⟩
  | nonterminal other => simp [terminal?]
  | epsilon => simp [terminal?]
  | endMarker => simp [terminal?]

theorem mem_terminals (draft : Draft) (name : Name) : name ∈ draft.terminals ↔
    name ∉ draft.names ∧
      ∃ rule ∈ draft.rules, ∃ alternative ∈ rule.2, .terminal name ∈ alternative := by
  simp only [terminals, SortedSet.mem_ofList, List.mem_flatMap, List.mem_filterMap, List.mem_flatten,
    terminal?_eq_some_iff]
  constructor
  · rintro ⟨rule, inside, _, ⟨alternative, listed, found⟩, rfl, unknown⟩
    exact ⟨unknown, rule, inside, alternative, listed, found⟩
  · rintro ⟨unknown, rule, inside, alternative, listed, found⟩
    exact ⟨rule, inside, _, ⟨alternative, listed, found⟩, rfl, unknown⟩

end Draft

end Lookahead
