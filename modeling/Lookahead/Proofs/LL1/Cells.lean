import Lookahead.LL1.Table
import Lookahead.Proofs.Sets.Followed

/-!
# Cells of predictive tables

In a table without conflicts a cell holds a production exactly when the lookahead
symbol can come first in its body, followed by what follows its nonterminal.
-/

namespace Lookahead

namespace LL1

theorem mem_predictSet_iff (first : FirstSets) (follow : FollowSets) (lhs : Name)
    (body : List Symbol) (symbol : Symbol) :
    symbol ∈ predictSet first follow lhs body ↔
      first.Opens (· ∈ follow.get lhs) body symbol := by
  unfold predictSet FirstSets.Opens
  simp only [ne_eq, decide_not]
  split
  · rename_i vanishes
    simp [vanishes]
  · rename_i solid
    simp [solid]

namespace Table

variable {grammar : Grammar} {first : FirstSets} {follow : FollowSets} {table : Table}

theorem grammar_of_build (ok : build grammar first follow = .ok table) :
    table.grammar = grammar := by
  rw [(eq_of_checked_eq_ok ok).1]
  rfl

theorem row?_of_build (ok : build grammar first follow = .ok table) (name : Name) :
    table.row? name = (grammar.rule? name).map (ruleRow first follow) := by
  rw [(eq_of_checked_eq_ok ok).1, Grammar.rule?_eq_find?, row?, ofSets, List.find?_map,
    Option.map_map]
  rfl

theorem isOk_build_iff_contests : (build grammar first follow).isOk = true ↔
    ∀ rule ∈ grammar.rules, (ruleRow first follow rule).contests = [] := by
  rw [build, isOk_checked_iff, conflicts, List.flatMap_eq_nil_iff]
  simp only [ofSets, List.forall_mem_map, List.map_eq_nil_iff, Row.clashes]

theorem contests_of_build (ok : build grammar first follow = .ok table) {rule : Rule}
    (inside : rule ∈ grammar.rules) : (ruleRow first follow rule).contests = [] :=
  isOk_build_iff_contests.mp (by rw [ok]; rfl) rule inside

/-- A rule's claims on a cell, by the bodies that the lookahead symbol can open. -/
theorem mem_claims_iff {name : Name} {rule : Rule} (found : grammar.rule? name = some rule)
    (lookahead : Symbol) (index : Nat) :
    (lookahead, index) ∈ (ruleRow first follow rule).claims ↔
      ∃ production, grammar.production? name index = some production ∧
        first.Opens (· ∈ follow.get name) production.body lookahead := by
  rw [mem_ruleRow, (Grammar.mem_rules_of_rule? found).2]
  simp only [mem_predictSet_iff, Grammar.production?, Grammar.productions, found]

/-- The production in a cell is the one whose body the lookahead symbol can open. -/
theorem get?_eq_some_iff (ok : build grammar first follow = .ok table) (name : Name)
    (lookahead : Symbol) (index : Nat) :
    table.get? name lookahead = some index ↔
      ∃ production, grammar.production? name index = some production ∧
        first.Opens (· ∈ follow.get name) production.body lookahead := by
  rw [get?, row?_of_build ok]
  cases found : grammar.rule? name with
  | none => simp [Grammar.production?, Grammar.productions, found]
  | some rule =>
      have inside := (Grammar.mem_rules_of_rule? found).1
      rw [Option.map_some, Option.bind_some, ← mem_claims_iff found]
      constructor
      · exact Row.mem_claims_of_get? _ lookahead index
      · exact Row.get?_of_mem_claims _ (contests_of_build ok inside) lookahead index

/-- A table has no conflicts exactly when no symbol can open two alternatives of a nonterminal. -/
theorem isOk_build_iff (nodup : grammar.nonterminals.Nodup) :
    (build grammar first follow).isOk = true ↔
      ∀ name lookahead index other one another, grammar.production? name index = some one →
        grammar.production? name other = some another →
        first.Opens (· ∈ follow.get name) one.body lookahead →
        first.Opens (· ∈ follow.get name) another.body lookahead → index = other := by
  simp only [isOk_build_iff_contests, Row.contests_eq_nil_iff]
  constructor
  · intro agree name lookahead index other one another found otherFound opens otherOpens
    obtain ⟨rule, ruleFound, _⟩ := Grammar.production?_eq_some_iff.mp found
    apply agree rule (Grammar.mem_rules_of_rule? ruleFound).1 lookahead
    · exact (mem_claims_iff ruleFound lookahead index).mpr ⟨one, found, opens⟩
    · exact (mem_claims_iff ruleFound lookahead other).mpr ⟨another, otherFound, otherOpens⟩
  · intro apart rule inside lookahead index other claimed otherClaimed
    have ruleFound := Grammar.rule?_of_mem nodup inside
    obtain ⟨one, found, opens⟩ := (mem_claims_iff ruleFound lookahead index).mp claimed
    obtain ⟨another, otherFound, otherOpens⟩ := (mem_claims_iff ruleFound lookahead other).mp otherClaimed
    exact apart rule.lhs lookahead index other one another found otherFound opens otherOpens

end Table

end LL1

end Lookahead
