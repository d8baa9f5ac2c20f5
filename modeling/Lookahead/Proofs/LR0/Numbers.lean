import Lookahead.Proofs.LR0.Valid

/-!
# Numbers of states

Every state that a numbered state leads to has a number of its own, which the
transitions of the automaton give.
-/

namespace Lookahead.LR0

variable {grammar : Grammar} {state : ItemSet} {symbol : Symbol} {number : Nat}

/-- The first state has number 0. -/
theorem getElem?_states_zero (grammar : Grammar) :
    (states grammar)[0]? = some (initialState grammar) := by
  have first : Exploration.fresh [] [initialState grammar] = [initialState grammar] := by
    simp [Exploration.fresh]
  obtain ⟨later, same⟩ : (Exploration.fresh [] [initialState grammar]).IsPrefix (states grammar) :=
    Exploration.isPrefix_explore
  rw [← same, first]
  rfl

theorem target_mem_states (inside : state ∈ states grammar)
    (isNext : symbol ∈ nextSymbols grammar state) :
    target grammar state symbol ∈ states grammar := by
  have reached := (Exploration.mem_explore state).mp inside
  refine (Exploration.mem_explore _).mpr (.step reached ?_)
  exact List.mem_map.mpr ⟨symbol, (SortedSet.mem_toList _ _).mpr isNext, rfl⟩

/-- Every state is the one that some word leads to. -/
theorem exists_itemsAfter_of_mem_states (inside : state ∈ states grammar) :
    ∃ word, state = itemsAfter grammar word := by
  have reached := (Exploration.mem_explore state).mp inside
  induction reached with
  | seed found => exact ⟨[], List.mem_singleton.mp found⟩
  | step before found ih =>
      obtain ⟨word, isState⟩ := ih ((Exploration.mem_explore _).mpr before)
      obtain ⟨symbol, _, isTarget⟩ := List.mem_map.mp found
      refine ⟨word ++ [symbol], ?_⟩
      rw [itemsAfter_append_singleton, ← isState, isTarget]

namespace Automaton

theorem mem_transitionsOf {all : List ItemSet} :
    (symbol, number) ∈ transitionsOf grammar all state ↔
      symbol ∈ nextSymbols grammar state ∧
        all.findIdx? (fun other => decide (other = target grammar state symbol)) = some number := by
  simp only [transitionsOf, List.mem_filterMap, Option.map_eq_some_iff, Prod.mk.injEq,
    SortedSet.mem_toList]
  constructor
  · rintro ⟨other, isNext, place, found, sameSymbol, sameNumber⟩
    subst sameSymbol sameNumber
    exact ⟨isNext, found⟩
  · rintro ⟨isNext, found⟩
    exact ⟨symbol, isNext, number, found, rfl, rfl⟩

/-- A transition gives the number of the state that the symbol leads to. -/
theorem getElem?_of_mem_transitionsOf
    (inside : (symbol, number) ∈ transitionsOf grammar (LR0.states grammar) state) :
    (LR0.states grammar)[number]? = some (target grammar state symbol) := by
  obtain ⟨_, found⟩ := mem_transitionsOf.mp inside
  obtain ⟨inRange, same, _⟩ := List.findIdx?_eq_some_iff_getElem.mp found
  rw [List.getElem?_eq_getElem inRange, of_decide_eq_true same]

theorem exists_transition (inside : state ∈ LR0.states grammar)
    (isNext : symbol ∈ nextSymbols grammar state) :
    ∃ number, (symbol, number) ∈ transitionsOf grammar (LR0.states grammar) state := by
  cases found : (LR0.states grammar).findIdx? fun other =>
      decide (other = target grammar state symbol) with
  | some number => exact ⟨number, mem_transitionsOf.mpr ⟨isNext, found⟩⟩
  | none =>
      have missing := List.findIdx?_eq_none_iff.mp found _ (target_mem_states inside isNext)
      exact absurd missing (by simp)

theorem transition_unique {all : List ItemSet} {other : Nat}
    (one : (symbol, number) ∈ transitionsOf grammar all state)
    (two : (symbol, other) ∈ transitionsOf grammar all state) : number = other :=
  Option.some.inj ((mem_transitionsOf.mp one).2.symm.trans (mem_transitionsOf.mp two).2)

end Automaton

end Lookahead.LR0
