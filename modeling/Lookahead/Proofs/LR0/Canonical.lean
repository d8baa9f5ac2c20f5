import Lookahead.Proofs.LR0.Closure
import Lookahead.Proofs.LR0.Construction

/-!
# The canonical collection

The states of the automaton of an augmented grammar are the closed sets of items of its
productions that symbols lead to from the first state, each once.  They are numbered as a
breadth-first walk meets them that takes the symbols of a state in their order.
-/

namespace Lookahead

namespace LR0

/-- The dot of an item is in a production that the grammar has, or at its end. -/
def Item.Known (grammar : Grammar) (item : Item) : Prop :=
  ∃ production, grammar.production? item.nonterminal item.production = some production ∧
    item.dot ≤ production.length

namespace Automaton

/-- The states are the canonical collection, in the order of a breadth-first walk. -/
structure IsCanonical (grammar : Grammar) (automaton : Automaton) : Prop where
  /-- No two states hold the same items. -/
  nodup : automaton.states.Nodup
  closed : ∀ state ∈ automaton.states, closure grammar state = state
  known : ∀ state ∈ automaton.states, ∀ item ∈ state, item.Known grammar
  initial : automaton.states[0]? = some (closure grammar (.singleton ⟨grammar.start, 0, 0⟩))
  /-- A state has a goto for each symbol behind a dot in it, and for no other. -/
  goto_iff : ∀ number state, automaton.states[number]? = some state → ∀ symbol,
    (∃ next, automaton.goto? number symbol = some next) ↔
      ∃ item ∈ state, item.nextSymbol? grammar = some symbol
  goto_target : ∀ number state, automaton.states[number]? = some state → ∀ symbol next,
    automaton.goto? number symbol = some next →
      automaton.states[next]? = some (closure grammar (advance grammar state symbol))
  reachable : ∀ number, number < automaton.size → ∃ word, automaton.walk? 0 word = some number
  entered : ∀ number, 0 < number → number < automaton.size →
    ∃ entrance, automaton.FirstEntrance number entrance ∧ entrance.1 < number
  /-- States are numbered in the order of their first entrances. -/
  ascending : ∀ earlier later one other, 0 < earlier → earlier < later →
    automaton.FirstEntrance earlier one → automaton.FirstEntrance later other → Precedes one other

variable {grammar : Grammar}

theorem closure_of_mem_states {state : ItemSet} (inside : state ∈ LR0.states grammar) :
    closure grammar state = state := by
  obtain ⟨word, isState⟩ := exists_itemsAfter_of_mem_states inside
  rw [isState]
  rcases List.eq_nil_or_concat word with isNil | ⟨front, symbol, isConcat⟩
  · rw [isNil]
    exact closure_closure grammar _
  · rw [isConcat, List.concat_eq_append, itemsAfter_append_singleton]
    exact closure_closure grammar _

theorem known_of_mem_states {production : Production}
    (found : grammar.production? grammar.start 0 = some production) {state : ItemSet}
    (inside : state ∈ LR0.states grammar) {item : Item} (member : item ∈ state) :
    item.Known grammar := by
  obtain ⟨word, isState⟩ := exists_itemsAfter_of_mem_states inside
  obtain ⟨before, rest, isDot, valid⟩ := validItem_of_mem_itemsAfter found (isState ▸ member)
  refine ⟨⟨before ++ rest⟩, valid.production, ?_⟩
  rw [isDot, Production.length, List.length_append]
  exact Nat.le_add_right _ _

theorem exists_goto?_iff {number : Nat} {state : ItemSet}
    (numbered : (LR0.states grammar)[number]? = some state) (symbol : Symbol) :
    (∃ next, (ofGrammar grammar).goto? number symbol = some next) ↔
      ∃ item ∈ state, item.nextSymbol? grammar = some symbol := by
  simp only [goto?_ofGrammar_eq_some_iff numbered, ← mem_nextSymbols]
  constructor
  · rintro ⟨next, listed⟩
    exact (mem_transitionsOf.mp listed).1
  · exact exists_transition (List.mem_of_getElem? numbered)

/-- By induction on the number, since some state with a lower number leads to each but the first. -/
theorem exists_walk?_of_lt (number : Nat) (inRange : number < (LR0.states grammar).length) :
    ∃ word, (ofGrammar grammar).walk? 0 word = some number := by
  induction number using Nat.strongRecOn with
  | _ number ih =>
    rcases Nat.eq_zero_or_pos number with isZero | positive
    · exact ⟨[], congrArg some isZero.symm⟩
    · obtain ⟨source, symbol, leads, less⟩ := exists_goto?_of_lt positive inRange
      obtain ⟨word, walked⟩ := ih source less (Nat.lt_trans less inRange)
      refine ⟨word ++ [symbol], ?_⟩
      rw [walk?_append_singleton, walked, Option.bind_some, leads]

theorem isCanonical_ofGrammar {production : Production}
    (found : grammar.production? grammar.start 0 = some production) :
    (ofGrammar grammar).IsCanonical grammar where
  nodup := nodup_states grammar
  closed := fun _ inside => closure_of_mem_states inside
  known := fun _ inside _ member => known_of_mem_states found inside member
  initial := getElem?_states_zero grammar
  goto_iff := fun _ _ numbered symbol => exists_goto?_iff numbered symbol
  goto_target := by
    intro number state numbered symbol next leads
    exact getElem?_of_mem_transitionsOf ((goto?_ofGrammar_eq_some_iff numbered).mp leads)
  reachable := exists_walk?_of_lt
  entered := by
    intro number positive inRange
    obtain ⟨source, symbol, leads, less⟩ := exists_goto?_of_lt positive inRange
    obtain ⟨entrance, isFirst, le⟩ := exists_firstEntrance leads
    exact ⟨entrance, isFirst, Nat.lt_of_le_of_lt le less⟩
  ascending := fun _ _ _ _ positive less first second => first.precedes second positive less

end Automaton

end LR0

/--
The automaton of an augmented grammar is the canonical collection, and constructing it state by
state with a queue comes to an end with its states and transitions.
-/
theorem Grammar.automaton_canonical (grammar : Grammar) :
    Machine.Halts (LR0.Construction.step grammar.augmented.toGrammar)
      (LR0.Construction.start grammar.augmented.toGrammar)
      (some (grammar.automaton.states, grammar.automaton.edges)) ∧
    grammar.automaton.IsCanonical grammar.augmented.toGrammar :=
  ⟨LR0.Construction.halts _, LR0.Automaton.isCanonical_ofGrammar (production?_freshStart grammar)⟩

end Lookahead
