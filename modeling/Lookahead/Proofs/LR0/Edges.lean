import Mathlib.Data.List.Basic
import Lookahead.Proofs.Data.BreadthFirst
import Lookahead.Proofs.Data.Keys
import Lookahead.Proofs.LR0.Contexts

/-!
# Transitions in their order

The transitions of an automaton are listed by state and then by symbol.  Along this list
the states come up in the order of their numbers: the first transition into a state stands
behind one into each earlier state, apart from the first.
-/

namespace Lookahead

/-- Among the members of an increasing list that pass a test, one comes before all others. -/
theorem exists_first_of_pairwise {α : Type} {R : α → α → Prop} {P : α → Prop} {values : List α}
    (increasing : values.Pairwise R) {value : α} (inside : value ∈ values) (passes : P value) :
    ∃ first ∈ values, P first ∧ ∀ other ∈ values, P other → other = first ∨ R first other := by
  induction values generalizing value with
  | nil => exact absurd inside List.not_mem_nil
  | cons head rest ih =>
      obtain ⟨headBelow, restIncreasing⟩ := List.pairwise_cons.mp increasing
      by_cases headPasses : P head
      · refine ⟨head, List.mem_cons_self, headPasses, fun other found _ => ?_⟩
        exact (List.mem_cons.mp found).imp_right (headBelow other)
      · have different : value ≠ head := fun same => headPasses (same ▸ passes)
        obtain ⟨first, found, firstPasses, least⟩ :=
          ih restIncreasing ((List.mem_cons.mp inside).resolve_left different) passes
        refine ⟨first, List.mem_cons_of_mem head found, firstPasses, fun other listed otherPasses => ?_⟩
        have apart : other ≠ head := fun same => headPasses (same ▸ otherPasses)
        exact least other ((List.mem_cons.mp listed).resolve_left apart) otherPasses

namespace LR0

def Precedes (one other : Nat × Symbol) : Prop :=
  one.1 < other.1 ∨ one.1 = other.1 ∧ compare one.2 other.2 = .lt

theorem Precedes.trans {first second third : Nat × Symbol} (lower : Precedes first second)
    (upper : Precedes second third) : Precedes first third := by
  rcases lower with less | ⟨same, less⟩
  · rcases upper with more | ⟨equal, _⟩
    · exact .inl (Nat.lt_trans less more)
    · exact .inl (equal ▸ less)
  · rcases upper with more | ⟨equal, more⟩
    · exact .inl (same ▸ more)
    · exact .inr ⟨same.trans equal, Std.TransCmp.lt_trans less more⟩

variable {grammar : Grammar} {source number : Nat} {symbol : Symbol}

theorem nodup_states (grammar : Grammar) : (states grammar).Nodup := Exploration.nodup_explore

/-- A state has one number. -/
theorem number_unique {state : ItemSet} {place : Nat} (one : (states grammar)[number]? = some state)
    (other : (states grammar)[place]? = some state) : number = place :=
  (List.getElem?_inj (List.getElem?_eq_some_iff.mp one).1 (nodup_states grammar)).mp
    (one.trans other.symm)

namespace Automaton

theorem mem_edges {automaton : Automaton} :
    (source, symbol, number) ∈ automaton.edges ↔
      ∃ row, automaton.transitions[source]? = some row ∧ (symbol, number) ∈ row := by
  simp only [edges, List.mem_flatMap, Prod.exists, List.mem_map, Prod.mk.injEq,
    List.mem_zipIdx_iff_getElem?]
  constructor
  · rintro ⟨row, place, listed, _, _, inside, same, isSymbol, isNumber⟩
    exact ⟨row, same ▸ listed, isSymbol ▸ isNumber ▸ inside⟩
  · rintro ⟨row, listed, inside⟩
    exact ⟨row, source, listed, symbol, number, inside, rfl, rfl, rfl⟩

theorem transitions_ofGrammar : (ofGrammar grammar).transitions =
    (LR0.states grammar).map (transitionsOf grammar (LR0.states grammar)) := rfl

theorem mem_edges_iff_exists :
    (source, symbol, number) ∈ (ofGrammar grammar).edges ↔
      ∃ state, (LR0.states grammar)[source]? = some state ∧
        (symbol, number) ∈ transitionsOf grammar (LR0.states grammar) state := by
  rw [mem_edges, transitions_ofGrammar, List.getElem?_map]
  constructor
  · rintro ⟨row, isRow, inside⟩
    obtain ⟨state, numbered, rfl⟩ := Option.map_eq_some_iff.mp isRow
    exact ⟨state, numbered, inside⟩
  · rintro ⟨state, numbered, inside⟩
    exact ⟨_, Option.map_eq_some_iff.mpr ⟨state, numbered, rfl⟩, inside⟩

/-- The gotos of an automaton are its transitions. -/
theorem mem_edges_ofGrammar :
    (source, symbol, number) ∈ (ofGrammar grammar).edges ↔
      (ofGrammar grammar).goto? source symbol = some number := by
  rw [mem_edges_iff_exists]
  cases numbered : (LR0.states grammar)[source]? with
  | none => simp [goto?, ofGrammar, numbered]
  | some state => simp [goto?_ofGrammar_eq_some_iff numbered]

theorem edge_unique {other : Nat} (one : (source, symbol, number) ∈ (ofGrammar grammar).edges)
    (two : (source, symbol, other) ∈ (ofGrammar grammar).edges) : number = other :=
  Option.some.inj ((mem_edges_ofGrammar.mp one).symm.trans (mem_edges_ofGrammar.mp two))

theorem transitionsOf_increasing (all : List ItemSet) (state : ItemSet) :
    (transitionsOf grammar all state).Pairwise fun one other => compare one.1 other.1 = .lt := by
  refine List.Pairwise.filterMap _ ?_ (nextSymbols grammar state).increasing
  intro first second less one isOne other isOther
  obtain ⟨_, _, rfl⟩ := Option.map_eq_some_iff.mp isOne
  obtain ⟨_, _, rfl⟩ := Option.map_eq_some_iff.mp isOther
  exact less

/-- Transitions are listed by state, and those of a state by symbol. -/
theorem edges_increasing (grammar : Grammar) : (ofGrammar grammar).edges.Pairwise fun one other =>
    Precedes (one.1, one.2.1) (other.1, other.2.1) := by
  refine List.pairwise_flatMap.mpr ⟨?_, ?_⟩
  · rintro ⟨row, place⟩ listed
    obtain ⟨state, _, isRow⟩ := List.mem_map.mp (List.fst_mem_of_mem_zipIdx listed)
    subst isRow
    refine List.pairwise_map.mpr ((transitionsOf_increasing _ state).imp ?_)
    exact fun less => .inr ⟨rfl, less⟩
  · refine (pairwise_zipIdx _ 0).imp ?_
    intro one other less first inFirst second inSecond
    obtain ⟨_, _, rfl⟩ := List.mem_map.mp inFirst
    obtain ⟨_, _, rfl⟩ := List.mem_map.mp inSecond
    exact .inl less

/-- The states that the transitions of a state lead to are its successors, in the same order. -/
theorem map_getElem?_transitionsOf {state : ItemSet} (inside : state ∈ LR0.states grammar) :
    (transitionsOf grammar (LR0.states grammar) state).map
      (fun entry => (LR0.states grammar)[entry.2]?) = (successors grammar state).map some := by
  rw [transitionsOf, successors, List.map_filterMap, List.map_map,
    List.filterMap_eq_map_iff_forall_eq_some]
  intro symbol isNext
  obtain ⟨number, listed⟩ := exists_transition inside ((SortedSet.mem_toList _ _).mp isNext)
  simp only [(mem_transitionsOf.mp listed).2, Option.map_some, Function.comp_apply,
    getElem?_of_mem_transitionsOf listed]

theorem map_getElem?_edges (grammar : Grammar) :
    (ofGrammar grammar).edges.map (fun edge => (LR0.states grammar)[edge.2.2]?) =
      ((LR0.states grammar).flatMap (successors grammar)).map some := by
  have byState : (ofGrammar grammar).edges.map (fun edge => (LR0.states grammar)[edge.2.2]?) =
      ((LR0.states grammar).zipIdx.map Prod.fst).flatMap fun state =>
        (transitionsOf grammar (LR0.states grammar) state).map
          fun entry => (LR0.states grammar)[entry.2]? := by
    rw [edges, transitions_ofGrammar, List.zipIdx_map, List.flatMap_map, List.flatMap_map,
      List.map_flatMap]
    simp only [List.map_map]
    rfl
  rw [byState, List.zipIdx_map_fst, List.map_flatMap]
  exact List.flatMap_congr fun state inside => map_getElem?_transitionsOf inside

/-- Before a transition into a state stands one into each earlier state, apart from the first. -/
theorem exists_edge_of_edges_eq_append {before after : List (Nat × Symbol × Nat)} {earlier : Nat}
    (splits : (ofGrammar grammar).edges = before ++ (source, symbol, number) :: after)
    (positive : 0 < earlier) (less : earlier < number) :
    ∃ edge ∈ before, edge.2.2 = earlier := by
  have images := map_getElem?_edges grammar
  rw [splits, List.map_append, List.map_cons] at images
  obtain ⟨front, others, splitsThere, isFront, isOthers⟩ := List.map_eq_append_iff.mp images.symm
  obtain ⟨state, back, isCons, numbered, _⟩ := List.map_eq_cons_iff.mp isOthers
  rw [isCons] at splitsThere
  obtain ⟨inRange, isState⟩ := List.getElem?_eq_some_iff.mp numbered.symm
  have listed : LR0.states grammar =
      (LR0.states grammar).take number ++ state :: (LR0.states grammar).drop (number + 1) := by
    rw [← isState, ← List.drop_eq_getElem_cons inRange, List.take_append_drop]
  obtain ⟨other, isOther⟩ : ∃ other, (LR0.states grammar)[earlier]? = some other :=
    ⟨_, List.getElem?_eq_getElem (Nat.lt_trans less inRange)⟩
  have inFront := List.mem_of_getElem? ((List.getElem?_take_of_lt less).trans isOther)
  rcases Exploration.mem_of_explore_eq_append splitsThere listed inFront with isSeed | found
  · rw [List.mem_singleton.mp isSeed] at isOther
    exact absurd (number_unique isOther (getElem?_states_zero grammar)) (Nat.ne_of_gt positive)
  · have named : some other ∈ front.map some := List.mem_map_of_mem found
    rw [isFront] at named
    obtain ⟨edge, inside, leads⟩ := List.mem_map.mp named
    exact ⟨edge, inside, number_unique leads isOther⟩

/-- Every state but the first is led to by a state with a lower number. -/
theorem exists_goto?_of_lt (positive : 0 < number) (inRange : number < (LR0.states grammar).length) :
    ∃ source symbol, (ofGrammar grammar).goto? source symbol = some number ∧ source < number := by
  have numbered := List.getElem?_eq_getElem inRange
  rcases Exploration.descends_explore number _ numbered with
    isSeed | ⟨source, state, less, isState, follows⟩
  · rw [List.mem_singleton.mp isSeed] at numbered
    exact absurd (number_unique numbered (getElem?_states_zero grammar)) (Nat.ne_of_gt positive)
  · obtain ⟨symbol, isNext, isTarget⟩ := List.mem_map.mp follows
    obtain ⟨place, listed⟩ := exists_transition (List.mem_of_getElem? isState) isNext
    have leads := getElem?_of_mem_transitionsOf listed
    rw [isTarget] at leads
    have isNumber := number_unique leads numbered
    exact ⟨source, symbol, (goto?_ofGrammar_eq_some_iff isState).mpr (isNumber ▸ listed), less⟩

/-- The first pair of a state and a symbol, by state and then by symbol, that leads to a state. -/
structure FirstEntrance (automaton : Automaton) (number : Nat) (entrance : Nat × Symbol) : Prop where
  leads : automaton.goto? entrance.1 entrance.2 = some number
  least : ∀ other : Nat × Symbol, automaton.goto? other.1 other.2 = some number →
    other = entrance ∨ Precedes entrance other

theorem exists_firstEntrance (leads : (ofGrammar grammar).goto? source symbol = some number) :
    ∃ entrance, (ofGrammar grammar).FirstEntrance number entrance ∧ entrance.1 ≤ source := by
  obtain ⟨⟨first, letter, place⟩, inside, isNumber, least⟩ := exists_first_of_pairwise
    (edges_increasing grammar) (P := fun edge => edge.2.2 = number) (mem_edges_ofGrammar.mpr leads) rfl
  have isFirst : (ofGrammar grammar).FirstEntrance number (first, letter) := by
    refine ⟨mem_edges_ofGrammar.mp (isNumber ▸ inside), fun other leadsToo => ?_⟩
    refine (least (other.1, other.2, number) (mem_edges_ofGrammar.mpr leadsToo) rfl).imp_left ?_
    exact fun same => congrArg (fun edge => (edge.1, edge.2.1)) same
  refine ⟨(first, letter), isFirst, ?_⟩
  rcases isFirst.least (source, symbol) leads with same | less | ⟨same, _⟩
  · exact Nat.le_of_eq (congrArg Prod.fst same).symm
  · exact Nat.le_of_lt less
  · exact Nat.le_of_eq same

/-- The states come in the order of their first entrances. -/
theorem FirstEntrance.precedes {earlier later : Nat} {one other : Nat × Symbol}
    (first : (ofGrammar grammar).FirstEntrance earlier one)
    (second : (ofGrammar grammar).FirstEntrance later other) (positive : 0 < earlier)
    (less : earlier < later) : Precedes one other := by
  obtain ⟨before, after, splits⟩ := List.append_of_mem (mem_edges_ofGrammar.mpr second.leads)
  obtain ⟨⟨source, symbol, _⟩, inBefore, rfl⟩ := exists_edge_of_edges_eq_append splits positive less
  have increasing := edges_increasing grammar
  rw [splits, List.pairwise_append] at increasing
  have below := increasing.2.2 _ inBefore _ List.mem_cons_self
  have listed := splits ▸ List.mem_append_left (_ :: after) inBefore
  rcases first.least (source, symbol) (mem_edges_ofGrammar.mp listed) with same | least
  · exact same ▸ below
  · exact least.trans below

end Automaton

end LR0

end Lookahead
