import Lookahead.Proofs.Grammar.Productions
import Lookahead.Proofs.Grammar.Yield

/-!
# Fronts of inputs that can be continued

A front of an input is viable when the start symbol with the end marker derives a
sequence that begins with it.  The longest viable front is where an input that is
not in the language goes wrong.
-/

namespace Lookahead

def Terminals (word : List Symbol) : Prop := ∀ symbol ∈ word, ∃ name, symbol = .terminal name

theorem Terminals.isInput {word : List Symbol} (terminals : Terminals word) :
    ∀ symbol ∈ word, symbol.isInput = true := by
  intro symbol inside
  obtain ⟨name, same⟩ := terminals symbol inside
  rw [same]
  rfl

theorem Terminals.endMarker_not_mem {word : List Symbol} (terminals : Terminals word) :
    Symbol.endMarker ∉ word := by
  intro inside
  obtain ⟨name, same⟩ := terminals _ inside
  exact Symbol.noConfusion same

theorem terminals_append {first second : List Symbol} :
    Terminals (first ++ second) ↔ Terminals first ∧ Terminals second :=
  List.forall_mem_append

theorem Terminals.append_singleton {word : List Symbol} (terminals : Terminals word) (name : Name) :
    Terminals (word ++ [.terminal name]) := by
  intro symbol inside
  cases List.mem_append.mp inside with
  | inl old => exact terminals symbol old
  | inr new => exact ⟨name, List.mem_singleton.mp new⟩

/-- After terminals of an input that ends in the end marker there is more of the input. -/
theorem Terminals.exists_cons {read unread : List Symbol} (terminals : Terminals read)
    (ends : (read ++ unread).getLast? = some .endMarker) : ∃ head more, unread = head :: more := by
  cases unread with
  | nil =>
      rw [List.append_nil] at ends
      exact absurd (List.mem_of_getLast? ends) terminals.endMarker_not_mem
  | cons head more => exact ⟨head, more, rfl⟩

theorem terminals_of_isInput {word : List Symbol} (inputs : ∀ symbol ∈ word, symbol.isInput = true)
    (noEnd : Symbol.endMarker ∉ word) : Terminals word := by
  intro symbol inside
  cases Symbol.eq_of_isInput (inputs symbol inside) with
  | inl isTerminal => exact isTerminal
  | inr isEnd => exact absurd (isEnd ▸ inside) noEnd

namespace Grammar

variable {grammar : Grammar}

def Known (grammar : Grammar) (symbol : Symbol) : Prop :=
  (∃ name, symbol = .terminal name) ∨ ∃ name, symbol = .nonterminal name ∧ name ∈ grammar.nonterminals

/-- A front of an input begins a sequence derived from the start symbol and the end marker. -/
def Viable (grammar : Grammar) (front : List Symbol) : Prop :=
  (∀ symbol ∈ front, symbol.isInput = true) ∧
    ∃ rest, grammar.Derives [.nonterminal grammar.start, .endMarker] (front ++ rest)

/-- The length of the longest viable front of an input. -/
structure LongestViable (grammar : Grammar) (input : List Symbol) (length : Nat) : Prop where
  le : length ≤ input.length
  viable : grammar.Viable (input.take length)
  longest : ∀ other ≤ input.length, grammar.Viable (input.take other) → other ≤ length

theorem LongestViable.unique {input : List Symbol} {first second : Nat}
    (one : grammar.LongestViable input first) (other : grammar.LongestViable input second) :
    first = second :=
  Nat.le_antisymm (other.longest first one.le one.viable) (one.longest second other.le other.viable)

theorem viable_iff_leads (front : List Symbol) :
    grammar.Viable front ↔ grammar.Leads [.nonterminal grammar.start, .endMarker] front :=
  (leads_iff grammar _ front).symm

theorem Derives.eq_endMarker {symbols : List Symbol} (chain : grammar.Derives [.endMarker] symbols) :
    symbols = [.endMarker] := by
  induction chain with
  | refl => rfl
  | step _ next ih =>
      cases next with
      | expand before after found =>
          have length := congrArg List.length ih
          cases before with
          | nil => exact absurd (List.cons.inj ih).1 Symbol.noConfusion
          | cons head rest => exact absurd length (by simp)

/-- Sequences derived from the start symbol and the end marker end in that one end marker. -/
theorem Derives.exists_front {symbols : List Symbol}
    (chain : grammar.Derives [.nonterminal grammar.start, .endMarker] symbols) :
    ∃ front, symbols = front ++ [.endMarker] ∧
      grammar.Derives [.nonterminal grammar.start] front := by
  have whole : grammar.Derives ([.nonterminal grammar.start] ++ [.endMarker]) symbols := chain
  obtain ⟨front, last, same, frontChain, lastChain⟩ := whole.of_append
  exact ⟨front, same.trans (by rw [lastChain.eq_endMarker]), frontChain⟩

theorem Derives.with_endMarker {symbols : List Symbol}
    (chain : grammar.Derives [.nonterminal grammar.start] symbols) :
    grammar.Derives [.nonterminal grammar.start, .endMarker] (symbols ++ [.endMarker]) :=
  chain.append (.refl [.endMarker])

namespace Known

theorem ne_endMarker {symbol : Symbol} (known : grammar.Known symbol) : symbol ≠ .endMarker := by
  rintro rfl
  rcases known with ⟨_, same⟩ | ⟨_, same, _⟩
  · exact Symbol.noConfusion same
  · exact Symbol.noConfusion same

theorem of_body (wellFormed : grammar.WellFormed) {name : Name} {index : Nat}
    {production : Production} (found : grammar.production? name index = some production) :
    ∀ symbol ∈ production.body, grammar.Known symbol :=
  fun _ inside => wellFormed.symbol_of_body found inside

theorem of_derives (wellFormed : grammar.WellFormed) {symbols last : List Symbol}
    (chain : grammar.Derives symbols last) (known : ∀ symbol ∈ symbols, grammar.Known symbol) :
    ∀ symbol ∈ last, grammar.Known symbol := by
  induction chain with
  | refl => exact known
  | step _ next ih =>
      cases next with
      | expand before after found =>
          intro symbol inside
          rcases List.mem_append.mp inside with inBefore | inRest
          · exact ih symbol (List.mem_append_left _ inBefore)
          · rcases List.mem_append.mp inRest with inBody | inAfter
            · exact of_body wellFormed found symbol inBody
            · exact ih symbol (List.mem_append_right _ (List.mem_cons_of_mem _ inAfter))

theorem start (wellFormed : grammar.WellFormed) :
    ∀ symbol ∈ [Symbol.nonterminal grammar.start], grammar.Known symbol := by
  intro symbol inside
  exact .inr ⟨grammar.start, List.mem_singleton.mp inside, wellFormed.start_defined⟩

end Known

/-- Whatever nonterminal stands in a derived sequence has a rule. -/
theorem mem_nonterminals_of_derives (wellFormed : grammar.WellFormed) {name : Name}
    {before after : List Symbol}
    (chain : grammar.Derives [.nonterminal grammar.start] (before ++ .nonterminal name :: after)) :
    name ∈ grammar.nonterminals := by
  have known := Known.of_derives wellFormed chain (Known.start wellFormed)
  rcases known (.nonterminal name) (by simp) with ⟨_, same⟩ | ⟨_, same, inside⟩
  · exact Symbol.noConfusion same
  · rw [Symbol.nonterminal.inj same]
    exact inside

/-- Known symbols lead to words of terminals only. -/
theorem Leads.terminals (wellFormed : grammar.WellFormed) {symbols word : List Symbol}
    (leads : grammar.Leads symbols word) (known : ∀ symbol ∈ symbols, grammar.Known symbol) :
    Terminals word := by
  obtain ⟨rest, chain⟩ := leads.exists_derives
  refine terminals_of_isInput leads.isInput fun inside => ?_
  exact (Known.of_derives wellFormed chain known _ (List.mem_append_left rest inside)).ne_endMarker rfl

theorem Yields.terminals (wellFormed : grammar.WellFormed) {symbols word : List Symbol}
    (yields : grammar.Yields symbols word) (known : ∀ symbol ∈ symbols, grammar.Known symbol) :
    Terminals word :=
  yields.leads.terminals wellFormed known

/-- The start symbol derives a word of terminals exactly when it yields it. -/
theorem terminals_and_derives_iff_yields (wellFormed : grammar.WellFormed) (word : List Symbol) :
    Terminals word ∧ grammar.Derives [.nonterminal grammar.start] word ↔
      grammar.Yields [.nonterminal grammar.start] word := by
  constructor
  · rintro ⟨terminals, chain⟩
    exact (yields_iff grammar _ word).mpr ⟨chain, terminals.isInput⟩
  · intro yields
    exact ⟨yields.terminals wellFormed (Known.start wellFormed), yields.derives⟩

/-- The last symbol of a viable front is a terminal, or the end marker after a whole word. -/
theorem Viable.of_append_singleton {front : List Symbol} {symbol : Symbol}
    (viable : grammar.Viable (front ++ [symbol])) :
    grammar.Leads [.nonterminal grammar.start] (front ++ [symbol]) ∨
      symbol = .endMarker ∧ grammar.Yields [.nonterminal grammar.start] front := by
  have leads : grammar.Leads ([.nonterminal grammar.start] ++ [.endMarker]) (front ++ [symbol]) :=
    (viable_iff_leads _).mp viable
  rcases leads.of_append with inStart | ⟨first, second, same, yields, ended⟩
  · exact .inl inStart
  · cases ended with
    | nil =>
        rw [List.append_nil] at same
        exact .inl (same ▸ yields.leads)
    | input isInput tail =>
        cases tail with
        | nil =>
            obtain ⟨sameFront, sameLast⟩ := List.append_inj' same rfl
            exact .inr ⟨(List.cons.inj sameLast).1, sameFront ▸ yields⟩

theorem Viable.of_append {front rest : List Symbol} (viable : grammar.Viable (front ++ rest)) :
    grammar.Viable front := by
  obtain ⟨inputs, last, chain⟩ := viable
  refine ⟨fun symbol inside => inputs symbol (List.mem_append_left rest inside), rest ++ last, ?_⟩
  rw [← List.append_assoc]
  exact chain

/-- Nothing comes after the end marker. -/
theorem Viable.eq_nil_of_endMarker {front rest : List Symbol}
    (viable : grammar.Viable (front ++ .endMarker :: rest)) (wellFormed : grammar.WellFormed) :
    rest = [] := by
  cases rest with
  | nil => rfl
  | cons head others =>
      have whole : grammar.Viable (((front ++ [.endMarker]) ++ [head]) ++ others) := by
        simpa using viable
      have atHead := whole.of_append
      have inFront : Symbol.endMarker ∈ front ++ [.endMarker] := by simp
      rcases atHead.of_append_singleton with leads | ⟨_, yields⟩
      · have terminals := leads.terminals wellFormed (Known.start wellFormed)
        exact absurd (List.mem_append_left [head] inFront) terminals.endMarker_not_mem
      · have terminals := yields.terminals wellFormed (Known.start wellFormed)
        exact absurd inFront terminals.endMarker_not_mem

end Grammar

end Lookahead
