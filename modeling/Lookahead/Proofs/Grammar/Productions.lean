import Lookahead.Grammar.Basic
import Lookahead.Proofs.Data.Keys

/-!
# Looking productions up

Each rule of a grammar without repeated left-hand sides is found by its name,
so the productions found by name and place are those listed in rule order.
-/

namespace Lookahead.Grammar

variable {grammar : Grammar} {name : Name} {index : Nat} {production : Production}

theorem mem_rules_of_rule? {rule : Rule} (found : grammar.rule? name = some rule) :
    rule ∈ grammar.rules ∧ rule.lhs = name :=
  mem_of_findKey? ((grammar.rule?_eq_find? name).symm.trans found)

theorem rule?_of_mem (nodup : grammar.nonterminals.Nodup) {rule : Rule}
    (inside : rule ∈ grammar.rules) : grammar.rule? rule.lhs = some rule :=
  (grammar.rule?_eq_find? rule.lhs).trans (findKey?_of_mem nodup inside)

theorem production?_eq_some_iff : grammar.production? name index = some production ↔
    ∃ rule, grammar.rule? name = some rule ∧ rule.productions[index]? = some production := by
  unfold production? productions
  cases grammar.rule? name with
  | none => simp
  | some rule => simp

theorem mem_indexedProductions (nodup : grammar.nonterminals.Nodup) :
    (name, index, production) ∈ grammar.indexedProductions ↔
      grammar.production? name index = some production := by
  simp only [indexedProductions, List.mem_flatMap, List.mem_map, Prod.mk.injEq, Prod.exists]
  rw [production?_eq_some_iff]
  constructor
  · rintro ⟨rule, inside, body, place, listed, isName, isIndex, isProduction⟩
    subst isName isIndex isProduction
    exact ⟨rule, rule?_of_mem nodup inside, List.mem_zipIdx_iff_getElem?.mp listed⟩
  · rintro ⟨rule, found, listed⟩
    obtain ⟨inside, isName⟩ := mem_rules_of_rule? found
    exact ⟨rule, inside, production, index, List.mem_zipIdx_iff_getElem?.mpr listed,
      isName, rfl, rfl⟩

theorem mem_nonterminals_of_production? (found : grammar.production? name index = some production) :
    name ∈ grammar.nonterminals := by
  obtain ⟨rule, ruleFound, _⟩ := production?_eq_some_iff.mp found
  obtain ⟨inside, isName⟩ := mem_rules_of_rule? ruleFound
  exact List.mem_map.mpr ⟨rule, inside, isName⟩

theorem mem_bodySymbols_of_production? (found : grammar.production? name index = some production)
    {symbol : Symbol} (inside : symbol ∈ production.body) : symbol ∈ grammar.bodySymbols := by
  obtain ⟨rule, ruleFound, listed⟩ := production?_eq_some_iff.mp found
  exact List.mem_flatMap.mpr ⟨rule, (mem_rules_of_rule? ruleFound).1,
    List.mem_flatMap.mpr ⟨production, List.mem_of_getElem? listed, inside⟩⟩

theorem production?_of_body {body : List Symbol}
    (found : grammar.production? name index = some production) (isBody : production.body = body) :
    grammar.production? name index = some ⟨body⟩ :=
  isBody ▸ found

def ofRules (conventions : Conventions) (rules : List Rule) : Grammar :=
  .indexed conventions rules (.ofList (rules.flatMap fun rule =>
    rule.productions.flatMap fun production => production.body.filterMap Symbol.terminal?))

theorem terminals_ofRules_exact (conventions : Conventions) (rules : List Rule) (name : Name) :
    name ∈ (ofRules conventions rules).terminals ↔
      Symbol.terminal name ∈ (ofRules conventions rules).bodySymbols := by
  simp only [ofRules, terminals_indexed, bodySymbols, rules_indexed, SortedSet.mem_ofList,
    List.mem_flatMap, List.mem_filterMap, Symbol.terminal?_eq_some_iff, exists_eq_right]

namespace WellFormed

/-- Bodies hold terminals and nonterminals that have rules. -/
theorem symbol_of_body (wellFormed : grammar.WellFormed)
    (found : grammar.production? name index = some production) {symbol : Symbol}
    (inside : symbol ∈ production.body) :
    (∃ other, symbol = .terminal other) ∨
      ∃ other, symbol = .nonterminal other ∧ other ∈ grammar.nonterminals := by
  rcases wellFormed.body_resolved symbol (mem_bodySymbols_of_production? found inside) with
    ⟨other, same, _⟩ | resolved
  · exact .inl ⟨other, same⟩
  · exact .inr resolved

theorem endMarker_not_mem_body (wellFormed : grammar.WellFormed)
    (found : grammar.production? name index = some production) :
    Symbol.endMarker ∉ production.body := by
  intro inside
  rcases wellFormed.symbol_of_body found inside with ⟨other, same⟩ | ⟨other, same, _⟩
  · exact Symbol.noConfusion same
  · exact Symbol.noConfusion same

theorem epsilon_not_mem_body (wellFormed : grammar.WellFormed)
    (found : grammar.production? name index = some production) :
    Symbol.epsilon ∉ production.body := by
  intro inside
  rcases wellFormed.symbol_of_body found inside with ⟨other, same⟩ | ⟨other, same, _⟩
  · exact Symbol.noConfusion same
  · exact Symbol.noConfusion same

end WellFormed

end Lookahead.Grammar
