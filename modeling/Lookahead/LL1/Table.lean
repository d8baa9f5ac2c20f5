import Lookahead.Follow
import Lookahead.Table.Conflict

/-!
# Predictive tables

A production claims the cells of its nonterminal for the symbols its words can
begin with, and, if it can vanish, for the symbols that can follow.
-/

namespace Lookahead.LL1

def predictSet (first : FirstSets) (follow : FollowSets) (lhs : Name) (body : List Symbol) :
    SymbolSet :=
  let begins := first.ofSequence body
  let visible := begins.filter fun symbol => decide (symbol ≠ .epsilon)
  if .epsilon ∈ begins then visible ∪ follow.get lhs else visible

/-- The claims of a rule's productions, by place and then by symbol. -/
def ruleRow (first : FirstSets) (follow : FollowSets) (rule : Rule) : Row Nat :=
  ⟨rule.productions.zipIdx.flatMap fun (production, index) =>
    (predictSet first follow rule.lhs production.body).toList.map fun lookahead =>
      (lookahead, index)⟩

theorem mem_ruleRow (first : FirstSets) (follow : FollowSets) (rule : Rule) (lookahead : Symbol)
    (index : Nat) :
    (lookahead, index) ∈ (ruleRow first follow rule).claims ↔
      ∃ production, rule.productions[index]? = some production ∧
        lookahead ∈ predictSet first follow rule.lhs production.body := by
  simp only [ruleRow, List.mem_flatMap, List.mem_map, Prod.mk.injEq, Prod.exists]
  constructor
  · rintro ⟨production, place, found, symbol, inside, same, isIndex⟩
    subst same isIndex
    exact ⟨production, List.mem_zipIdx_iff_getElem?.mp found, inside⟩
  · rintro ⟨production, found, inside⟩
    exact ⟨production, index, List.mem_zipIdx_iff_getElem?.mpr found, lookahead, inside, rfl, rfl⟩

structure Table where
  grammar : Grammar
  rows : List (Name × Row Nat)
  deriving DecidableEq, Inhabited

namespace Table

def row? (table : Table) (nonterminal : Name) : Option (Row Nat) :=
  (table.rows.find? fun entry => decide (entry.1 = nonterminal)).map Prod.snd

def get? (table : Table) (nonterminal : Name) (lookahead : Symbol) : Option Nat :=
  (table.row? nonterminal).bind fun row => row.get? lookahead

def size (table : Table) : Nat := (table.rows.flatMap fun entry => entry.2.cells).length

def listing (table : Table) : List (Name × List (Symbol × Nat)) :=
  (SortedSet.ofList (table.rows.map Prod.fst)).toList.filterMap fun name =>
    (table.row? name).map fun row => (name, row.cells)

def conflicts (table : Table) : List Conflict :=
  table.rows.flatMap fun (nonterminal, row) => (row.clashes nonterminal).map Conflict.predictive

/-- All claims for a grammar, with FIRST and FOLLOW sets that may be those of other grammars. -/
def ofSets (grammar : Grammar) (first : FirstSets) (follow : FollowSets) : Table :=
  ⟨grammar, grammar.rules.map fun rule => (rule.lhs, ruleRow first follow rule)⟩

/-- The table in which no cell has two claims, or the report of all that do. -/
def build (grammar : Grammar) (first : FirstSets) (follow : FollowSets) :
    Except ConflictReport Table :=
  checked (ofSets grammar first follow) (ofSets grammar first follow).conflicts

end Table

end Lookahead.LL1
