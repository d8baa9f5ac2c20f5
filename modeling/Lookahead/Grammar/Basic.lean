import Lookahead.Grammar.Conventions

/-!
# Context-free grammars

A grammar is an ordered list of rules, and a rule an ordered list of
productions for one nonterminal.  Productions are named by their nonterminal
and their place among its alternatives.
-/

namespace Lookahead

/-- One alternative of a rule; the empty body derives the empty word. -/
structure Production where
  body : List Symbol
  deriving DecidableEq, Inhabited

namespace Production

/-- The production for symbols as written, in which the empty-word symbol adds nothing. -/
def ofSymbols (symbols : List Symbol) : Production :=
  ⟨symbols.filter fun symbol => decide (symbol ≠ .epsilon)⟩

theorem epsilon_not_mem_ofSymbols (symbols : List Symbol) :
    Symbol.epsilon ∉ (ofSymbols symbols).body := by
  simp [ofSymbols]

theorem mem_ofSymbols (symbols : List Symbol) (symbol : Symbol) :
    symbol ∈ (ofSymbols symbols).body ↔ symbol ∈ symbols ∧ symbol ≠ .epsilon := by
  simp [ofSymbols]

def isEmpty (production : Production) : Bool := production.body.isEmpty

/-- The symbols as shown: an empty body is shown as the empty-word symbol. -/
def symbols (production : Production) : List Symbol :=
  if production.isEmpty then [.epsilon] else production.body

def length (production : Production) : Nat := production.body.length

end Production

structure Rule where
  lhs : Name
  productions : List Production
  deriving DecidableEq, Inhabited

def places (rules : List Rule) : List (Name × Nat) :=
  rules.zipIdx.map fun (rule, place) => (rule.lhs, place)

/--
Rules in order of definition, with the conventions they are written in, the place of the rule for
each name, and the names that stand for terminals.
-/
structure Grammar where
  conventions : Conventions
  rules : List Rule
  index : List (Name × Nat)
  terminals : SortedSet Name
  index_eq : index = places rules
  deriving DecidableEq

instance : Inhabited Grammar := ⟨⟨default, [], [], ∅, rfl⟩⟩

namespace Grammar

/-- A grammar with the places of its rules filled in. -/
def indexed (conventions : Conventions) (rules : List Rule) (terminals : SortedSet Name) : Grammar :=
  ⟨conventions, rules, places rules, terminals, rfl⟩

@[simp]
theorem conventions_indexed (conventions : Conventions) (rules : List Rule)
    (terminals : SortedSet Name) : (indexed conventions rules terminals).conventions = conventions := rfl

@[simp]
theorem rules_indexed (conventions : Conventions) (rules : List Rule) (terminals : SortedSet Name) :
    (indexed conventions rules terminals).rules = rules := rfl

@[simp]
theorem terminals_indexed (conventions : Conventions) (rules : List Rule)
    (terminals : SortedSet Name) : (indexed conventions rules terminals).terminals = terminals := rfl

def start (grammar : Grammar) : Name := grammar.conventions.start

def nonterminals (grammar : Grammar) : List Name := grammar.rules.map Rule.lhs

def place? (grammar : Grammar) (name : Name) : Option Nat :=
  (grammar.index.find? fun entry => decide (entry.1 = name)).map Prod.snd

def isNonterminal (grammar : Grammar) (name : Name) : Bool := (grammar.place? name).isSome

def rule? (grammar : Grammar) (name : Name) : Option Rule :=
  (grammar.place? name).bind fun place => grammar.rules[place]?

def productions (grammar : Grammar) (name : Name) : List Production :=
  match grammar.rule? name with
  | some rule => rule.productions
  | none => []

def production? (grammar : Grammar) (name : Name) (index : Nat) : Option Production :=
  (grammar.productions name)[index]?

def indexedProductions (grammar : Grammar) : List (Name × Nat × Production) :=
  grammar.rules.flatMap fun rule =>
    rule.productions.zipIdx.map fun (production, index) => (rule.lhs, index, production)

def bodySymbols (grammar : Grammar) : List Symbol :=
  grammar.rules.flatMap fun rule => rule.productions.flatMap Production.body

theorem names_index (grammar : Grammar) : grammar.index.map Prod.fst = grammar.nonterminals := by
  have names : grammar.rules.zipIdx.map (Rule.lhs ∘ Prod.fst) = grammar.rules.map Rule.lhs := by
    rw [← List.map_map, List.zipIdx_map_fst]
  rw [grammar.index_eq, places, List.map_map]
  exact names

/-- The index leads to the first rule for a name. -/
theorem rule?_eq_find? (grammar : Grammar) (name : Name) :
    grammar.rule? name = grammar.rules.find? fun rule => decide (rule.lhs = name) := by
  have byRule : grammar.rules.find? (fun rule => decide (rule.lhs = name)) =
      (grammar.rules.zipIdx.find? fun entry => decide (entry.1.lhs = name)).map Prod.fst := by
    rw [← List.zipIdx_map_fst 0 grammar.rules, List.find?_map, List.zipIdx_map_fst]
    rfl
  have byName : grammar.place? name =
      (grammar.rules.zipIdx.find? fun entry => decide (entry.1.lhs = name)).map Prod.snd := by
    rw [place?, grammar.index_eq, places, List.find?_map, Option.map_map]
    rfl
  rw [rule?, byName, byRule]
  cases found : grammar.rules.zipIdx.find? fun entry => decide (entry.1.lhs = name) with
  | none => rfl
  | some entry => exact List.mem_zipIdx_iff_getElem?.mp (List.mem_of_find?_eq_some found)

/-- Grammars are told apart by their rules, terminals and conventions. -/
theorem eq_of_rules_eq {first second : Grammar} (sameConventions : first.conventions = second.conventions)
    (sameRules : first.rules = second.rules) (sameTerminals : first.terminals = second.terminals) :
    first = second := by
  obtain ⟨conventions, rules, _, terminals, rfl⟩ := first
  obtain ⟨_, _, _, _, rfl⟩ := second
  subst sameConventions sameRules sameTerminals
  rfl

/-- What every grammar that is built from a draft satisfies. -/
structure WellFormed (grammar : Grammar) : Prop where
  start_defined : grammar.start ∈ grammar.nonterminals
  nonterminals_nodup : grammar.nonterminals.Nodup
  productions_ne_nil : ∀ rule ∈ grammar.rules, rule.productions ≠ []
  body_resolved : ∀ symbol ∈ grammar.bodySymbols,
    (∃ name, symbol = .terminal name ∧ name ∉ grammar.nonterminals) ∨
      ∃ name, symbol = .nonterminal name ∧ name ∈ grammar.nonterminals
  mem_terminals : ∀ name,
    name ∈ grammar.terminals ↔ Symbol.terminal name ∈ grammar.bodySymbols

end Grammar

end Lookahead
