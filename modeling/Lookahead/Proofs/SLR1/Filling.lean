import Lookahead.Proofs.Grammar.Built
import Lookahead.Proofs.LR0.Edges
import Lookahead.Proofs.SLR1.Cells
import Lookahead.Proofs.Table.Filling

/-!
# Filling shift-reduce tables

A cell is claimed by a shift, if the automaton has a transition there, and by the complete
items of its state.  Tables are refused exactly when a cell has two different claims, and the
report then has the shift, or else the claim of the first item that has one, with each of the
others.  The order in which transitions and FOLLOW sets are visited does not matter.
-/

namespace Lookahead.SLR1

/-- A state shifts a symbol that is no nonterminal by the automaton's transition. -/
def Shifts (automaton : LR0.Automaton) (number : Nat) (lookahead : Symbol) (action : Action) :
    Prop :=
  ∃ next, action = .shift next ∧ (number, lookahead, next) ∈ automaton.edges ∧
    ∀ name, lookahead ≠ .nonterminal name

/-- A complete item of the start symbol accepts the end marker, and any other reduces on FOLLOW. -/
def ItemClaims (grammar : Grammar) (follow : FollowSets) (item : LR0.Item) (lookahead : Symbol) :
    Action → Prop
  | .shift _ => False
  | .reduce name index => item.isComplete grammar = true ∧ item.nonterminal = name ∧
      item.production = index ∧ name ≠ grammar.start ∧ lookahead ∈ follow.get name
  | .accept => item.isComplete grammar = true ∧ item.nonterminal = grammar.start ∧
      lookahead = .endMarker

/-- The cell of a state for a lookahead symbol is claimed by the shift and by the state's items. -/
def Claims (automaton : LR0.Automaton) (grammar : Grammar) (follow : FollowSets) (number : Nat)
    (lookahead : Symbol) (action : Action) : Prop :=
  Shifts automaton number lookahead action ∨
    ∃ state, automaton.states[number]? = some state ∧
      ∃ item ∈ state, ItemClaims grammar follow item lookahead action

def FirstItemClaims (grammar : Grammar) (follow : FollowSets) (state : LR0.ItemSet)
    (lookahead : Symbol) (action : Action) : Prop :=
  ∃ item ∈ state, ItemClaims grammar follow item lookahead action ∧
    ∀ earlier ∈ state, compare earlier item = .lt →
      ∀ other, ¬ ItemClaims grammar follow earlier lookahead other

/-- A cell is kept by the shift if there is one, and by the first item that claims it otherwise. -/
def Keeps (automaton : LR0.Automaton) (grammar : Grammar) (follow : FollowSets) (number : Nat)
    (lookahead : Symbol) (action : Action) : Prop :=
  Shifts automaton number lookahead action ∨
    (∀ other, ¬ Shifts automaton number lookahead other) ∧
      ∃ state, automaton.states[number]? = some state ∧
        FirstItemClaims grammar follow state lookahead action

section Items

variable {grammar : Grammar} {follow : FollowSets}

def visitClaims (grammar : Grammar) (symbols : List Symbol) (item : LR0.Item) :
    List (Symbol × Action) :=
  if item.isComplete grammar then
    if item.nonterminal = grammar.start then [(.endMarker, .accept)]
    else symbols.map fun lookahead => (lookahead, .reduce item.nonterminal item.production)
  else []

def visitRow (grammar : Grammar) (follows : LR0.Item → List Symbol) (state : LR0.ItemSet) :
    Row Action :=
  ⟨state.toList.flatMap fun item => visitClaims grammar (follows item) item⟩

theorem mem_visitClaims {symbols : List Symbol} {item : LR0.Item}
    (covers : ∀ symbol, symbol ∈ symbols ↔ symbol ∈ follow.get item.nonterminal)
    {lookahead : Symbol} {action : Action} :
    (lookahead, action) ∈ visitClaims grammar symbols item ↔
      ItemClaims grammar follow item lookahead action := by
  have same : (lookahead, action) ∈ visitClaims grammar symbols item ↔
      (lookahead, action) ∈ itemClaims grammar follow item := by
    unfold visitClaims itemClaims
    simp only [apply_ite ((lookahead, action) ∈ ·), List.mem_map, covers, SortedSet.mem_toList]
  rw [same]
  cases action with
  | shift next => exact iff_of_false not_mem_itemClaims_shift id
  | reduce name index => exact Tables.mem_itemClaims_reduce
  | accept => exact Tables.mem_itemClaims_accept

theorem eq_of_itemClaims {item : LR0.Item} {lookahead : Symbol} {one other : Action}
    (claimed : ItemClaims grammar follow item lookahead one)
    (otherClaimed : ItemClaims grammar follow item lookahead other) : one = other := by
  have covers : ∀ symbol, symbol ∈ (follow.get item.nonterminal).toList ↔
      symbol ∈ follow.get item.nonterminal := fun _ => Iff.rfl
  exact eq_of_mem_itemClaims ((mem_visitClaims covers).mpr claimed)
    ((mem_visitClaims covers).mpr otherClaimed)

variable {follows : LR0.Item → List Symbol} {state : LR0.ItemSet} {lookahead : Symbol}
variable {action : Action}

theorem mem_visitRow
    (covers : ∀ item symbol, symbol ∈ follows item ↔ symbol ∈ follow.get item.nonterminal) :
    (lookahead, action) ∈ (visitRow grammar follows state).claims ↔
      ∃ item ∈ state, ItemClaims grammar follow item lookahead action := by
  simp only [visitRow, List.mem_flatMap, SortedSet.mem_toList, mem_visitClaims (covers _)]

/-- Items come in their order, so that the first to claim a cell has it. -/
theorem get?_visitRow_eq_some_iff
    (covers : ∀ item symbol, symbol ∈ follows item ↔ symbol ∈ follow.get item.nonterminal) :
    (visitRow grammar follows state).get? lookahead = some action ↔
      FirstItemClaims grammar follow state lookahead action := by
  have made : ∀ item claim, (lookahead, claim) ∈ visitClaims grammar (follows item) item ↔
      ItemClaims grammar follow item lookahead claim := fun item _ => mem_visitClaims (covers item)
  have asymmetric : ∀ one other : LR0.Item, compare one other = .lt → ¬ compare other one = .lt :=
    fun _ _ => Std.OrientedCmp.not_lt_of_lt
  refine (firstAt?_flatMap_eq_some_iff state.increasing asymmetric ?_).trans ?_
  · intro item one other claimed otherClaimed
    exact eq_of_itemClaims ((made item one).mp claimed) ((made item other).mp otherClaimed)
  · simp only [made, SortedSet.mem_toList, FirstItemClaims]

end Items

section Transitions

variable {κ α : Type} {number : Nat}

/-- What transitions enter one by one, each in the row of its source. -/
def entered (made : List (Symbol × Nat) → List (κ × α)) (edges : List (Nat × Symbol × Nat)) :
    List ((Nat × κ) × α) :=
  edges.flatMap fun edge => (made [edge.2]).map fun entry => ((edge.1, entry.1), entry.2)

theorem mem_entered {made : List (Symbol × Nat) → List (κ × α)} {edges : List (Nat × Symbol × Nat)}
    {key : κ} {value : α} : ((number, key), value) ∈ entered made edges ↔
      ∃ transition, (number, transition) ∈ edges ∧ (key, value) ∈ made [transition] := by
  simp only [entered, List.mem_flatMap, List.mem_map, Prod.exists, Prod.mk.injEq]
  constructor
  · rintro ⟨_, symbol, next, inside, _, _, isMade, ⟨rfl, rfl⟩, rfl⟩
    exact ⟨symbol, next, inside, isMade⟩
  · rintro ⟨symbol, next, inside, isMade⟩
    exact ⟨number, symbol, next, inside, key, value, isMade, ⟨rfl, rfl⟩, rfl⟩

variable {automaton : LR0.Automaton} {edges : List (Nat × Symbol × Nat)}

theorem mem_entered_shifts (covers : ∀ edge, edge ∈ edges ↔ edge ∈ automaton.edges)
    {lookahead : Symbol} {action : Action} :
    ((number, lookahead), action) ∈ entered shifts edges ↔
      Shifts automaton number lookahead action := by
  simp only [mem_entered, covers, mem_shifts, List.mem_singleton, Shifts]
  constructor
  · rintro ⟨_, inside, notNonterminal, next, isShift, rfl⟩
    exact ⟨next, isShift, inside, notNonterminal⟩
  · rintro ⟨next, isShift, inside, notNonterminal⟩
    exact ⟨_, inside, notNonterminal, next, isShift, rfl⟩

theorem mem_entered_gotos (covers : ∀ edge, edge ∈ edges ↔ edge ∈ automaton.edges) {name : Name}
    {next : Nat} : ((number, name), next) ∈ entered gotos edges ↔
      (number, .nonterminal name, next) ∈ automaton.edges := by
  simp only [mem_entered, covers, mem_gotos, List.mem_singleton]
  constructor
  · rintro ⟨_, inside, rfl⟩
    exact inside
  · intro inside
    exact ⟨_, inside, rfl⟩

end Transitions

/-- An order in which transitions are visited, and FOLLOW sets for the items of each state. -/
structure VisitOrder (automaton : LR0.Automaton) (follow : FollowSets) where
  edges : List (Nat × Symbol × Nat)
  follows : Nat → LR0.Item → List Symbol
  mem_edges : ∀ edge, edge ∈ edges ↔ edge ∈ automaton.edges
  mem_follows : ∀ number item symbol,
    symbol ∈ follows number item ↔ symbol ∈ follow.get item.nonterminal

namespace VisitOrder

variable {automaton : LR0.Automaton} {follow : FollowSets}

def ascending (automaton : LR0.Automaton) (follow : FollowSets) : VisitOrder automaton follow where
  edges := automaton.edges
  follows := fun _ item => (follow.get item.nonterminal).toList
  mem_edges := fun _ => Iff.rfl
  mem_follows := fun _ _ _ => Iff.rfl

instance : Inhabited (VisitOrder automaton follow) := ⟨ascending automaton follow⟩

def rows (order : VisitOrder automaton follow) (grammar : Grammar) : List (Nat × Row Action) :=
  byPlace (fun state number => visitRow grammar (order.follows number) state) automaton.states

/-- All shifts are assigned first, and then the cells are filled state by state and item by item. -/
def filling (order : VisitOrder automaton follow) (grammar : Grammar) : Filling Nat Action :=
  (placed (order.rows grammar)).foldl Filling.enter
    ⟨(entered shifts order.edges).foldl assign fun _ => none, []⟩

def outcome (order : VisitOrder automaton follow) (grammar : Grammar) :
    Except ConflictReport ((Nat → Symbol → Option Action) × (Nat → Name → Option Nat)) :=
  checked (fun number lookahead => (order.filling grammar).cells (number, lookahead),
      fun number name => (entered gotos order.edges).foldl assign (fun _ => none) (number, name))
    ((order.filling grammar).clashes.map Conflict.shiftReduce)

end VisitOrder

/-- What is found among shifts, and then among the claims of items, is what a cell is to keep. -/
theorem or_eq_some_iff_keeps {automaton : LR0.Automaton} {grammar : Grammar} {follow : FollowSets}
    {number : Nat} {lookahead : Symbol} {shift claim : Option Action}
    (isShift : ∀ action, shift = some action ↔ Shifts automaton number lookahead action)
    (isClaim : ∀ action, claim = some action ↔ ∃ state, automaton.states[number]? = some state ∧
      FirstItemClaims grammar follow state lookahead action) (action : Action) :
    shift.or claim = some action ↔ Keeps automaton grammar follow number lookahead action := by
  have noShift : shift = none ↔ ∀ other, ¬ Shifts automaton number lookahead other := by
    rw [Option.eq_none_iff_forall_ne_some]
    exact forall_congr' fun other => not_congr (isShift other)
  rw [Option.or_eq_some_iff, isShift, noShift, isClaim, Keeps]

section OfGrammar

variable {source grammar : Grammar} {follow : FollowSets} {number : Nat} {lookahead : Symbol}
variable {action : Action}

abbrev rowOf (source : Grammar) (state : LR0.ItemSet) : List (Symbol × Nat) :=
  LR0.Automaton.transitionsOf source (LR0.states source) state

theorem shifts_ofGrammar_iff :
    Shifts (LR0.Automaton.ofGrammar source) number lookahead action ↔
      ∃ state, (LR0.states source)[number]? = some state ∧
        (lookahead, action) ∈ shifts (rowOf source state) := by
  simp only [Shifts, LR0.Automaton.mem_edges_iff_exists, mem_shifts]
  constructor
  · rintro ⟨next, isShift, ⟨state, numbered, inside⟩, notNonterminal⟩
    exact ⟨state, numbered, notNonterminal, next, isShift, inside⟩
  · rintro ⟨state, numbered, notNonterminal, next, isShift, inside⟩
    exact ⟨next, isShift, ⟨state, numbered, inside⟩, notNonterminal⟩

theorem shift_unique {other : Action}
    (one : Shifts (LR0.Automaton.ofGrammar source) number lookahead action)
    (two : Shifts (LR0.Automaton.ofGrammar source) number lookahead other) : action = other := by
  obtain ⟨next, rfl, inside, _⟩ := one
  obtain ⟨place, rfl, otherInside, _⟩ := two
  rw [LR0.Automaton.edge_unique inside otherInside]

namespace VisitOrder

variable (order : VisitOrder (LR0.Automaton.ofGrammar source) follow)

def entries (grammar : Grammar) : List ((Nat × Symbol) × Action) :=
  entered shifts order.edges ++ placed (order.rows grammar)

theorem entered_shifts_unique (key : Nat × Symbol) (one other : Action)
    (first : (key, one) ∈ entered shifts order.edges)
    (second : (key, other) ∈ entered shifts order.edges) : one = other :=
  shift_unique ((mem_entered_shifts order.mem_edges).mp first)
    ((mem_entered_shifts order.mem_edges).mp second)

theorem entered_gotos_unique (key : Nat × Name) (one other : Nat)
    (first : (key, one) ∈ entered gotos order.edges)
    (second : (key, other) ∈ entered gotos order.edges) : one = other :=
  LR0.Automaton.edge_unique ((mem_entered_gotos order.mem_edges).mp first)
    ((mem_entered_gotos order.mem_edges).mp second)

theorem mem_entries : ((number, lookahead), action) ∈ order.entries grammar ↔
    Claims (LR0.Automaton.ofGrammar source) grammar follow number lookahead action := by
  rw [entries, List.mem_append, mem_entered_shifts order.mem_edges, mem_placed, Claims]
  refine or_congr_right ?_
  constructor
  · rintro ⟨row, inside, claimed⟩
    obtain ⟨state, numbered, rfl⟩ := mem_byPlace.mp inside
    exact ⟨state, numbered, (mem_visitRow (order.mem_follows number)).mp claimed⟩
  · rintro ⟨state, numbered, claimed⟩
    exact ⟨_, mem_byPlace.mpr ⟨state, numbered, rfl⟩,
      (mem_visitRow (order.mem_follows number)).mpr claimed⟩

theorem firstAt?_entries : firstAt? (order.entries grammar) (number, lookahead) = some action ↔
    Keeps (LR0.Automaton.ofGrammar source) grammar follow number lookahead action := by
  rw [entries, firstAt?_append]
  refine or_eq_some_iff_keeps (fun claim => ?_) (fun claim => ?_) action
  · rw [firstAt?_eq_some_iff_mem (order.entered_shifts_unique _), mem_entered_shifts order.mem_edges]
  · rw [rows, firstAt?_placed (nodup_byPlace _ _), firstAt?_byPlace, Option.bind_map,
      Option.bind_eq_some_iff]
    simp only [Function.comp_apply, get?_visitRow_eq_some_iff (order.mem_follows number)]

theorem settled_filling : Settled (order.entries grammar)
    (fun number lookahead => (order.filling grammar).cells (number, lookahead))
    (order.filling grammar).clashes := by
  rw [filling, foldl_assign_free order.entered_shifts_unique]
  exact Filling.settled_foldl_enter _ order.entered_shifts_unique _

theorem gotos_eq_some_iff {name : Name} {next : Nat} :
    (entered gotos order.edges).foldl assign (fun _ => none) (number, name) = some next ↔
      (number, .nonterminal name, next) ∈ (LR0.Automaton.ofGrammar source).edges := by
  rw [foldl_assign_free order.entered_gotos_unique,
    firstAt?_eq_some_iff_mem (order.entered_gotos_unique _), mem_entered_gotos order.mem_edges]

end VisitOrder

end OfGrammar

namespace Tables

def numberedRows (tables : Tables) : List (Nat × Row Action) :=
  byPlace (fun row _ => row.actions) tables.rows

def clashes (tables : Tables) : List (Clash Nat Action) :=
  tables.numberedRows.flatMap fun row => row.2.clashes row.1

theorem conflicts_eq (tables : Tables) :
    tables.conflicts = tables.clashes.map Conflict.shiftReduce := by
  rw [conflicts, clashes, numberedRows, byPlace, List.map_flatMap, List.flatMap_map]

/-- Tables are settled by the claims of their rows. -/
theorem settled (tables : Tables) :
    Settled (placed tables.numberedRows) tables.action? tables.clashes := by
  have isAction : tables.action? = fun number lookahead =>
      (firstAt? tables.numberedRows number).bind fun row => row.get? lookahead := by
    funext number lookahead
    rw [numberedRows, firstAt?_byPlace, Option.bind_map]
    rfl
  rw [isAction]
  exact settled_placed (nodup_byPlace _ _)

variable {source : Grammar} {grammar : AugmentedGrammar} {follow : FollowSets} {number : Nat}
variable {lookahead : Symbol} {action : Action}

/-- The tables of the automaton of a grammar have a row for each of its states. -/
theorem getElem?_rows (source : Grammar) (grammar : AugmentedGrammar) (follow : FollowSets)
    (number : Nat) : (ofAutomaton (.ofGrammar source) grammar follow).rows[number]? =
      (LR0.states source)[number]?.map fun state =>
        stateRow grammar.toGrammar follow state (rowOf source state) := by
  rw [ofAutomaton, LR0.Automaton.ofGrammar, List.map_zip_eq_zipWith, List.zipWith_map_right,
    List.zipWith_self, List.getElem?_map]
  rfl

abbrev itemRow (grammar : Grammar) (follow : FollowSets) (state : LR0.ItemSet) : Row Action :=
  visitRow grammar (fun item => (follow.get item.nonterminal).toList) state

theorem mem_placed_numberedRows : ((number, lookahead), action) ∈
    placed (ofAutomaton (.ofGrammar source) grammar follow).numberedRows ↔
      Claims (.ofGrammar source) grammar.toGrammar follow number lookahead action := by
  have inItems : ∀ state, (lookahead, action) ∈ (itemRow grammar.toGrammar follow state).claims ↔
      ∃ item ∈ state, ItemClaims grammar.toGrammar follow item lookahead action :=
    fun _ => mem_visitRow fun _ _ => Iff.rfl
  rw [mem_placed, Claims, shifts_ofGrammar_iff]
  constructor
  · rintro ⟨row, inside, claimed⟩
    obtain ⟨_, isRow, rfl⟩ := mem_byPlace.mp inside
    rw [getElem?_rows] at isRow
    obtain ⟨state, numbered, rfl⟩ := Option.map_eq_some_iff.mp isRow
    rcases List.mem_append.mp claimed with shifted | claimed
    · exact .inl ⟨state, numbered, shifted⟩
    · exact .inr ⟨state, numbered, (inItems state).mp claimed⟩
  · intro claims
    obtain ⟨state, numbered, claimed⟩ : ∃ state, (LR0.states source)[number]? = some state ∧
        (lookahead, action) ∈
          (stateRow grammar.toGrammar follow state (rowOf source state)).actions.claims := by
      rcases claims with ⟨state, numbered, shifted⟩ | ⟨state, numbered, claimed⟩
      · exact ⟨state, numbered, List.mem_append_left _ shifted⟩
      · exact ⟨state, numbered, List.mem_append_right _ ((inItems state).mpr claimed)⟩
    refine ⟨_, mem_byPlace.mpr ⟨_, ?_, rfl⟩, claimed⟩
    rw [getElem?_rows, numbered, Option.map_some]

theorem firstAt?_placed_numberedRows :
    firstAt? (placed (ofAutomaton (.ofGrammar source) grammar follow).numberedRows)
        (number, lookahead) = some action ↔
      Keeps (.ofGrammar source) grammar.toGrammar follow number lookahead action := by
  have split : firstAt? (placed (ofAutomaton (.ofGrammar source) grammar follow).numberedRows)
        (number, lookahead) =
      ((LR0.states source)[number]?.bind fun state =>
        firstAt? (shifts (rowOf source state)) lookahead).or
        ((LR0.states source)[number]?.bind fun state =>
          (itemRow grammar.toGrammar follow state).get? lookahead) := by
    rw [numberedRows, firstAt?_placed (nodup_byPlace _ _), firstAt?_byPlace, getElem?_rows]
    cases (LR0.states source)[number]? with
    | none => rfl
    | some state => exact firstAt?_append _ _ lookahead
  rw [split]
  refine or_eq_some_iff_keeps (fun claim => ?_) (fun claim => ?_) action
  · rw [Option.bind_eq_some_iff, shifts_ofGrammar_iff]
    refine exists_congr fun state => and_congr_right fun numbered => firstAt?_eq_some_iff_mem ?_
    intro one other first second
    exact shift_unique (shifts_ofGrammar_iff.mpr ⟨state, numbered, first⟩)
      (shifts_ofGrammar_iff.mpr ⟨state, numbered, second⟩)
  · rw [Option.bind_eq_some_iff]
    refine exists_congr fun state => and_congr_right fun _ => ?_
    exact get?_visitRow_eq_some_iff fun _ _ => Iff.rfl

theorem goto?_ofAutomaton_iff {name : Name} {next : Nat} :
    (ofAutomaton (.ofGrammar source) grammar follow).goto? number name = some next ↔
      (number, .nonterminal name, next) ∈ (LR0.Automaton.ofGrammar source).edges := by
  rw [goto?, getElem?_rows, Option.bind_map, Option.bind_eq_some_iff,
    LR0.Automaton.mem_edges_iff_exists]
  refine exists_congr fun state => and_congr_right fun numbered => ?_
  rw [← mem_gotos]
  exact firstAt?_eq_some_iff_mem fun one other first second => LR0.Automaton.transition_unique
    (mem_gotos.mp first) (mem_gotos.mp second)

theorem exists_build_iff :
    (∃ tables, build (.ofGrammar source) grammar follow = .ok tables) ↔
      ∀ number lookahead one other,
        Claims (.ofGrammar source) grammar.toGrammar follow number lookahead one →
          Claims (.ofGrammar source) grammar.toGrammar follow number lookahead other → one = other := by
  rw [build, exists_checked_eq_ok_iff, conflicts_eq, List.map_eq_nil_iff,
    (settled _).clashes_eq_nil_iff]
  simp only [mem_placed_numberedRows]

theorem mem_report_build_iff {report : ConflictReport}
    (refused : build (.ofGrammar source) grammar follow = .error report) (conflict : Conflict) :
    conflict ∈ report ↔ ∃ number lookahead existing incoming,
      conflict = .shiftReduce ⟨number, lookahead, existing, incoming⟩ ∧
        Keeps (.ofGrammar source) grammar.toGrammar follow number lookahead existing ∧
          Claims (.ofGrammar source) grammar.toGrammar follow number lookahead incoming ∧
            existing ≠ incoming := by
  rw [build, conflicts_eq] at refused
  simp only [mem_report_iff_exists refused, (settled _).mem_clashes_iff, firstAt?_placed_numberedRows,
    mem_placed_numberedRows]

end Tables

/-- Filling the cells in any order comes to what building the tables does. -/
theorem VisitOrder.outcome_eq {source : Grammar} {follow : FollowSets}
    (order : VisitOrder (LR0.Automaton.ofGrammar source) follow) (grammar : AugmentedGrammar) :
    order.outcome grammar.toGrammar = (Tables.build (.ofGrammar source) grammar follow).map
      fun tables => (tables.action?, tables.goto?) := by
  have sameGotos : (fun number name =>
      (entered gotos order.edges).foldl assign (fun _ => none) (number, name)) =
        (Tables.ofAutomaton (.ofGrammar source) grammar follow).goto? := by
    funext number name
    exact Option.ext fun _ => order.gotos_eq_some_iff.trans Tables.goto?_ofAutomaton_iff.symm
  rw [outcome, Tables.build, map_checked, Tables.conflicts_eq, sameGotos]
  refine order.settled_filling.checked_eq (Tables.settled _) (fun _ => Option.ext fun _ => ?_)
    (fun _ => ?_) (fun cells => (cells, _)) _
  · exact order.firstAt?_entries.trans Tables.firstAt?_placed_numberedRows.symm
  · exact order.mem_entries.trans Tables.mem_placed_numberedRows.symm

namespace Tables

/--
Tables are built exactly when no cell has two different claims, and then hold all claims and all
gotos.  Otherwise the report has, in order and once each, the claim that a cell keeps with each
other claim on it.  Visiting transitions and FOLLOW sets in another order changes nothing.
-/
theorem shiftReduce_build_exact (source : Grammar) (grammar : AugmentedGrammar)
    (follow : FollowSets) :
    ((∃ tables, build (.ofGrammar source) grammar follow = .ok tables) ↔
      ∀ number lookahead one other,
        Claims (.ofGrammar source) grammar.toGrammar follow number lookahead one →
          Claims (.ofGrammar source) grammar.toGrammar follow number lookahead other → one = other) ∧
    (∀ tables, build (.ofGrammar source) grammar follow = .ok tables →
      tables.grammar = grammar ∧ tables.states = (LR0.Automaton.ofGrammar source).size ∧
      (∀ number lookahead action, tables.action? number lookahead = some action ↔
        Claims (.ofGrammar source) grammar.toGrammar follow number lookahead action) ∧
      ∀ number name next, tables.goto? number name = some next ↔
        (number, .nonterminal name, next) ∈ (LR0.Automaton.ofGrammar source).edges) ∧
    (∀ report, build (.ofGrammar source) grammar follow = .error report →
      report.toList.Pairwise (fun one other => compare one other = .lt) ∧
      ∀ conflict, conflict ∈ report ↔ ∃ number lookahead existing incoming,
        conflict = .shiftReduce ⟨number, lookahead, existing, incoming⟩ ∧
          Keeps (.ofGrammar source) grammar.toGrammar follow number lookahead existing ∧
            Claims (.ofGrammar source) grammar.toGrammar follow number lookahead incoming ∧
              existing ≠ incoming) ∧
    ∀ order : VisitOrder (.ofGrammar source) follow, order.outcome grammar.toGrammar =
      (build (.ofGrammar source) grammar follow).map fun tables => (tables.action?, tables.goto?) := by
  refine ⟨exists_build_iff, fun tables ok => ?_, fun report refused => ?_,
    fun order => order.outcome_eq grammar⟩
  · obtain ⟨rfl, quiet⟩ := eq_of_checked_eq_ok ok
    rw [conflicts_eq, List.map_eq_nil_iff] at quiet
    refine ⟨rfl, ?_, fun number lookahead action => ?_, fun _ _ _ => goto?_ofAutomaton_iff⟩
    · simp [states, ofAutomaton, LR0.Automaton.ofGrammar, LR0.Automaton.size]
    · rw [(settled _).cell?_eq_some_iff quiet, mem_placed_numberedRows]
  · exact ⟨report.increasing, mem_report_build_iff refused⟩

/-- With stray FOLLOW sets, the first state of nested pairs can shift and reduce on `a`. -/
theorem shiftReduce_build_exact_nestedPairs : ∃ report,
    build (.ofGrammar nestedPairs.augmented.toGrammar) nestedPairs.augmented strayFollow =
        .error report ∧
      Conflict.shiftReduce ⟨0, .terminal "a", .shift 1, .reduce "S" 1⟩ ∈ report := by
  have shift : Shifts (.ofGrammar nestedPairs.augmented.toGrammar) 0 (.terminal "a") (.shift 1) :=
    ⟨1, rfl, by decide +kernel, fun _ => Symbol.noConfusion⟩
  have complete : ItemClaims nestedPairs.augmented.toGrammar strayFollow ⟨"S", 1, 0⟩
      (.terminal "a") (.reduce "S" 1) := ⟨by decide +kernel, rfl, rfl, by decide +kernel, by decide⟩
  have reduce : Claims (.ofGrammar nestedPairs.augmented.toGrammar) nestedPairs.augmented.toGrammar
      strayFollow 0 (.terminal "a") (.reduce "S" 1) :=
    .inr ⟨_, LR0.getElem?_states_zero _, ⟨"S", 1, 0⟩, by decide +kernel, complete⟩
  obtain ⟨okIff, _, refused, _⟩ :=
    shiftReduce_build_exact nestedPairs.augmented.toGrammar nestedPairs.augmented strayFollow
  cases outcome : build (.ofGrammar nestedPairs.augmented.toGrammar) nestedPairs.augmented
      strayFollow with
  | ok tables =>
      exact absurd (okIff.mp ⟨tables, outcome⟩ 0 _ _ _ (.inl shift) reduce) Action.noConfusion
  | error report =>
      refine ⟨report, rfl, ((refused report outcome).2 _).mpr ?_⟩
      exact ⟨0, _, _, _, rfl, .inl shift, reduce, Action.noConfusion⟩

end Tables

end Lookahead.SLR1
