import Lookahead.Proofs.Grammar.Built
import Lookahead.Proofs.LL1.Cells
import Lookahead.Proofs.Table.Filling

/-!
# Filling predictive tables

A cell is claimed by the productions of its nonterminal that the lookahead symbol opens.
A table is refused exactly when two of them claim one cell, and the report then has the least
of them with each of the others.  The order in which the members of the sets are visited does
not matter.
-/

namespace Lookahead.LL1

variable {grammar : Grammar} {first : FirstSets} {follow : FollowSets}

/--
A production claims the cells of the symbols that its words can begin with and, if it can
vanish, of those that can follow its nonterminal.
-/
def Claims (grammar : Grammar) (first : FirstSets) (follow : FollowSets) (name : Name)
    (lookahead : Symbol) (index : Nat) : Prop :=
  ∃ production, grammar.production? name index = some production ∧
    (lookahead ∈ first.ofSequence production.body ∧ lookahead ≠ .epsilon ∨
      .epsilon ∈ first.ofSequence production.body ∧ lookahead ∈ follow.get name)

def Keeps (grammar : Grammar) (first : FirstSets) (follow : FollowSets) (name : Name)
    (lookahead : Symbol) (index : Nat) : Prop :=
  Claims grammar first follow name lookahead index ∧
    ∀ earlier < index, ¬ Claims grammar first follow name lookahead earlier

section Visits

variable {visits : Name → Nat → List Symbol → List Symbol}

def visitRow (visits : Name → Nat → List Symbol → List Symbol) (rule : Rule) : Row Nat :=
  ⟨rule.productions.zipIdx.flatMap fun (production, index) =>
    (visits rule.lhs index production.body).map fun lookahead => (lookahead, index)⟩

def visitRows (visits : Name → Nat → List Symbol → List Symbol) (grammar : Grammar) :
    List (Name × Row Nat) :=
  grammar.rules.map fun rule => (rule.lhs, visitRow visits rule)

def Covers (visits : Name → Nat → List Symbol → List Symbol) (first : FirstSets)
    (follow : FollowSets) : Prop :=
  ∀ name index body symbol,
    symbol ∈ visits name index body ↔ first.Opens (· ∈ follow.get name) body symbol

theorem mem_visitRow {rule : Rule} {lookahead : Symbol} {index : Nat} :
    (lookahead, index) ∈ (visitRow visits rule).claims ↔
      ∃ production, rule.productions[index]? = some production ∧
        lookahead ∈ visits rule.lhs index production.body := by
  simp only [visitRow, List.mem_flatMap, List.mem_map, Prod.mk.injEq, Prod.exists,
    List.mem_zipIdx_iff_getElem?]
  constructor
  · rintro ⟨production, _, found, _, visited, rfl, rfl⟩
    exact ⟨production, found, visited⟩
  · rintro ⟨production, found, visited⟩
    exact ⟨production, index, found, lookahead, visited, rfl, rfl⟩

/-- A cell of a row has the first production that claims it. -/
theorem get?_visitRow_eq_some_iff {rule : Rule} {lookahead : Symbol} {index : Nat} :
    (visitRow visits rule).get? lookahead = some index ↔
      (lookahead, index) ∈ (visitRow visits rule).claims ∧
        ∀ earlier < index, (lookahead, earlier) ∉ (visitRow visits rule).claims := by
  have isPlace : ∀ (claimant : Production × Nat) (place : Nat), (lookahead, place) ∈
      (visits rule.lhs claimant.2 claimant.1.body).map (fun seen => (seen, claimant.2)) →
        place = claimant.2 := by
    intro claimant place made
    obtain ⟨_, _, same⟩ := List.mem_map.mp made
    exact (Prod.mk.inj same).2.symm
  refine (firstAt?_flatMap_eq_some_iff (pairwise_zipIdx rule.productions 0)
    (fun _ _ => Nat.lt_asymm) ?_).trans ?_
  · intro claimant one other made otherMade
    rw [isPlace claimant one made, isPlace claimant other otherMade]
  · constructor
    · rintro ⟨claimant, inside, made, least⟩
      obtain rfl := isPlace claimant index made
      refine ⟨List.mem_flatMap.mpr ⟨claimant, inside, made⟩, fun earlier less claimed => ?_⟩
      obtain ⟨other, listed, otherMade⟩ := List.mem_flatMap.mp claimed
      exact least other listed (isPlace other earlier otherMade ▸ less) earlier otherMade
    · rintro ⟨claimed, least⟩
      obtain ⟨claimant, inside, made⟩ := List.mem_flatMap.mp claimed
      refine ⟨claimant, inside, made, fun earlier listed less other otherMade => ?_⟩
      rw [← isPlace claimant index made, ← isPlace earlier other otherMade] at less
      exact least other less (List.mem_flatMap.mpr ⟨earlier, listed, otherMade⟩)

theorem nodup_visitRows (visits : Name → Nat → List Symbol → List Symbol)
    (nodup : grammar.nonterminals.Nodup) : ((visitRows visits grammar).map Prod.fst).Nodup := by
  rw [visitRows, List.map_map]
  exact nodup

/-- The claims of all rows are those of the productions. -/
theorem mem_placed_visitRows (nodup : grammar.nonterminals.Nodup) (covers : Covers visits first follow)
    {name : Name} {lookahead : Symbol} {index : Nat} :
    ((name, lookahead), index) ∈ placed (visitRows visits grammar) ↔
      Claims grammar first follow name lookahead index := by
  rw [mem_placed]
  constructor
  · rintro ⟨row, inside, claimed⟩
    obtain ⟨rule, listed, isEntry⟩ := List.mem_map.mp inside
    obtain ⟨rfl, rfl⟩ := Prod.mk.inj isEntry
    obtain ⟨production, found, visited⟩ := mem_visitRow.mp claimed
    refine ⟨production, ?_, (covers _ _ _ _).mp visited⟩
    exact Grammar.production?_eq_some_iff.mpr ⟨rule, Grammar.rule?_of_mem nodup listed, found⟩
  · rintro ⟨production, found, opens⟩
    obtain ⟨rule, ruleFound, listed⟩ := Grammar.production?_eq_some_iff.mp found
    obtain ⟨inside, rfl⟩ := Grammar.mem_rules_of_rule? ruleFound
    refine ⟨visitRow visits rule, List.mem_map_of_mem inside, ?_⟩
    exact mem_visitRow.mpr ⟨production, listed, (covers _ _ _ _).mpr opens⟩

/-- The first claim on a cell is the one that the cell is to keep. -/
theorem firstAt?_placed_visitRows (nodup : grammar.nonterminals.Nodup)
    (covers : Covers visits first follow) {name : Name} {lookahead : Symbol} {index : Nat} :
    firstAt? (placed (visitRows visits grammar)) (name, lookahead) = some index ↔
      Keeps grammar first follow name lookahead index := by
  have rowsNodup := nodup_visitRows visits nodup
  have sole : ∀ one other, (name, one) ∈ visitRows visits grammar →
      (name, other) ∈ visitRows visits grammar → one = other := fun _ _ => eq_of_nodup_keys rowsNodup
  simp only [firstAt?_placed rowsNodup, Option.bind_eq_some_iff, firstAt?_eq_some_iff_mem sole, Keeps,
    ← mem_placed_visitRows nodup covers, mem_placed]
  constructor
  · rintro ⟨row, inside, isFirst⟩
    obtain ⟨rule, _, isEntry⟩ := List.mem_map.mp inside
    obtain ⟨rfl, rfl⟩ := Prod.mk.inj isEntry
    obtain ⟨claimed, least⟩ := get?_visitRow_eq_some_iff.mp isFirst
    refine ⟨⟨_, inside, claimed⟩, ?_⟩
    rintro earlier less ⟨other, otherInside, otherClaimed⟩
    obtain rfl := sole _ other inside otherInside
    exact least earlier less otherClaimed
  · rintro ⟨⟨row, inside, claimed⟩, least⟩
    refine ⟨row, inside, ?_⟩
    obtain ⟨rule, _, isEntry⟩ := List.mem_map.mp inside
    obtain ⟨rfl, rfl⟩ := Prod.mk.inj isEntry
    refine get?_visitRow_eq_some_iff.mpr ⟨claimed, fun earlier less earlierClaimed => ?_⟩
    exact least earlier less ⟨_, inside, earlierClaimed⟩

end Visits

/-- An order in which the members of FIRST and FOLLOW sets are visited, once or more often. -/
structure VisitOrder (first : FirstSets) (follow : FollowSets) where
  begins : Name → Nat → List Symbol → List Symbol
  follows : Name → Nat → List Symbol
  mem_begins : ∀ name index body symbol,
    symbol ∈ begins name index body ↔ symbol ∈ first.ofSequence body
  mem_follows : ∀ name index symbol, symbol ∈ follows name index ↔ symbol ∈ follow.get name

namespace VisitOrder

def ascending (first : FirstSets) (follow : FollowSets) : VisitOrder first follow where
  begins := fun _ _ body => (first.ofSequence body).toList
  follows := fun name _ => (follow.get name).toList
  mem_begins := fun _ _ _ _ => Iff.rfl
  mem_follows := fun _ _ _ => Iff.rfl

instance : Inhabited (VisitOrder first follow) := ⟨ascending first follow⟩

/-- What a production begins with, and then, if it vanishes, what follows its nonterminal. -/
def visits (order : VisitOrder first follow) (name : Name) (index : Nat) (body : List Symbol) :
    List Symbol :=
  let begins := order.begins name index body
  let visible := begins.filter fun symbol => decide (symbol ≠ .epsilon)
  if .epsilon ∈ begins then visible ++ order.follows name index else visible

/-- The cells filled rule by rule, production by production and symbol by symbol. -/
def filling (order : VisitOrder first follow) (grammar : Grammar) : Filling Name Nat :=
  (placed (visitRows order.visits grammar)).foldl Filling.enter ⟨fun _ => none, []⟩

/-- The cells that were filled if there were no clashes, and the report of all clashes otherwise. -/
def outcome (order : VisitOrder first follow) (grammar : Grammar) :
    Except ConflictReport (Name → Symbol → Option Nat) :=
  checked (fun name lookahead => (order.filling grammar).cells (name, lookahead))
    ((order.filling grammar).clashes.map Conflict.predictive)

theorem covers (order : VisitOrder first follow) : Covers order.visits first follow := by
  intro name index body symbol
  unfold visits FirstSets.Opens
  simp only [order.mem_begins]
  split
  · rename_i vanishes
    simp [vanishes, order.mem_begins, order.mem_follows]
  · rename_i solid
    simp [solid, order.mem_begins]

end VisitOrder

namespace Table

def predicted (first : FirstSets) (follow : FollowSets) (name : Name) (_ : Nat)
    (body : List Symbol) : List Symbol :=
  (predictSet first follow name body).toList

theorem covers_predicted (first : FirstSets) (follow : FollowSets) :
    Covers (predicted first follow) first follow :=
  fun name _ body symbol => mem_predictSet_iff first follow name body symbol

def clashes (table : Table) : List (Clash Name Nat) :=
  table.rows.flatMap fun row => row.2.clashes row.1

theorem conflicts_eq (table : Table) : table.conflicts = table.clashes.map Conflict.predictive :=
  List.map_flatMap.symm

/-- A table is settled by the visits to its productions in ascending order. -/
theorem settled_ofSets (nodup : grammar.nonterminals.Nodup) :
    Settled (placed (visitRows (predicted first follow) grammar)) (ofSets grammar first follow).get?
      (ofSets grammar first follow).clashes :=
  settled_placed (nodup_visitRows _ nodup)

theorem mem_clashes_ofSets_iff (nodup : grammar.nonterminals.Nodup) {name : Name}
    {lookahead : Symbol} {existing incoming : Nat} :
    ⟨name, lookahead, existing, incoming⟩ ∈ (ofSets grammar first follow).clashes ↔
      Keeps grammar first follow name lookahead existing ∧ existing < incoming ∧
        Claims grammar first follow name lookahead incoming := by
  have covers := covers_predicted first follow
  rw [(settled_ofSets nodup).mem_clashes_iff, firstAt?_placed_visitRows nodup covers,
    mem_placed_visitRows nodup covers]
  constructor
  · rintro ⟨kept, claimed, different⟩
    refine ⟨kept, Nat.lt_of_le_of_ne (Nat.le_of_not_lt fun less => ?_) different, claimed⟩
    exact kept.2 incoming less claimed
  · rintro ⟨kept, less, claimed⟩
    exact ⟨kept, claimed, Nat.ne_of_lt less⟩

theorem exists_build_iff (nodup : grammar.nonterminals.Nodup) :
    (∃ table, build grammar first follow = .ok table) ↔ ∀ name lookahead one other,
      Claims grammar first follow name lookahead one →
        Claims grammar first follow name lookahead other → one = other := by
  rw [build, exists_checked_eq_ok_iff, conflicts_eq, List.map_eq_nil_iff,
    (settled_ofSets nodup).clashes_eq_nil_iff]
  simp only [mem_placed_visitRows nodup (covers_predicted first follow)]

theorem mem_report_build_iff (nodup : grammar.nonterminals.Nodup) {report : ConflictReport}
    (refused : build grammar first follow = .error report) (conflict : Conflict) :
    conflict ∈ report ↔ ∃ name lookahead existing incoming,
      conflict = .predictive ⟨name, lookahead, existing, incoming⟩ ∧
        Keeps grammar first follow name lookahead existing ∧ existing < incoming ∧
          Claims grammar first follow name lookahead incoming := by
  rw [build, conflicts_eq] at refused
  simp only [mem_report_iff_exists refused, mem_clashes_ofSets_iff nodup]

end Table

/-- Filling the cells in any order comes to what building the table does. -/
theorem VisitOrder.outcome_eq (order : VisitOrder first follow) (nodup : grammar.nonterminals.Nodup) :
    order.outcome grammar = (Table.build grammar first follow).map Table.get? := by
  have settled : Settled (placed (visitRows order.visits grammar))
      (fun name lookahead => (order.filling grammar).cells (name, lookahead))
      (order.filling grammar).clashes :=
    Filling.settled_foldl_enter [] (fun _ _ _ never => absurd never List.not_mem_nil) _
  have predicted := Table.covers_predicted first follow
  rw [outcome, Table.build, map_checked, Table.conflicts_eq]
  refine settled.checked_eq (Table.settled_ofSets nodup) (fun _ => Option.ext fun _ => ?_)
    (fun _ => ?_) id _
  · exact (firstAt?_placed_visitRows nodup order.covers).trans
      (firstAt?_placed_visitRows nodup predicted).symm
  · exact (mem_placed_visitRows nodup order.covers).trans (mem_placed_visitRows nodup predicted).symm

namespace Table

/--
A table is built exactly when no cell is claimed by two productions, and then holds all claims.
Otherwise the report has, in order and once each, the first production that claims a cell with
each later one that does.  Visiting the members of the sets in another order changes nothing.
-/
theorem predictive_build_exact (built : grammar.Built) (first : FirstSets) (follow : FollowSets) :
    ((∃ table, build grammar first follow = .ok table) ↔ ∀ name lookahead one other,
      Claims grammar first follow name lookahead one →
        Claims grammar first follow name lookahead other → one = other) ∧
    (∀ table, build grammar first follow = .ok table → table.grammar = grammar ∧
      ∀ name lookahead index, table.get? name lookahead = some index ↔
        Claims grammar first follow name lookahead index) ∧
    (∀ report, build grammar first follow = .error report →
      report.toList.Pairwise (fun one other => compare one other = .lt) ∧
      ∀ conflict, conflict ∈ report ↔ ∃ name lookahead existing incoming,
        conflict = .predictive ⟨name, lookahead, existing, incoming⟩ ∧
          Keeps grammar first follow name lookahead existing ∧ existing < incoming ∧
            Claims grammar first follow name lookahead incoming) ∧
    ∀ order : VisitOrder first follow,
      order.outcome grammar = (build grammar first follow).map Table.get? := by
  have nodup := built.wellFormed.nonterminals_nodup
  refine ⟨exists_build_iff nodup, fun table ok => ⟨grammar_of_build ok, ?_⟩,
    fun report refused => ?_, fun order => order.outcome_eq nodup⟩
  · exact fun name lookahead index => get?_eq_some_iff ok name lookahead index
  · exact ⟨report.increasing, mem_report_build_iff nodup refused⟩

/-- With stray FOLLOW sets, both productions of nested pairs claim the cell for `a`. -/
theorem predictive_build_exact_nestedPairs : nestedPairs.Built ∧
    ∃ report, build nestedPairs default strayFollow = .error report ∧
      Conflict.predictive ⟨"S", .terminal "a", 0, 1⟩ ∈ report := by
  have least : Keeps nestedPairs default strayFollow "S" (.terminal "a") 0 :=
    ⟨⟨_, rfl, .inl (by decide)⟩, fun earlier less => absurd less (Nat.not_lt_zero earlier)⟩
  have second : Claims nestedPairs default strayFollow "S" (.terminal "a") 1 :=
    ⟨_, rfl, .inr (by decide)⟩
  obtain ⟨_, _, refused, _⟩ := predictive_build_exact built_nestedPairs default strayFollow
  refine ⟨built_nestedPairs, _, rfl, ?_⟩
  exact ((refused _ rfl).2 _).mpr ⟨"S", _, 0, 1, rfl, least, by decide, second⟩

end Table

end Lookahead.LL1
