import Lookahead.Proofs.Grammar.Viable

/-!
# Nonterminals that begin

A nonterminal begins when it derives the empty word or something with a terminal
in front; its FIRST set is empty otherwise.  Productive nonterminals begin, and a
sequence of symbols that all begin leads to a symbol or yields the empty word.
-/

namespace Lookahead.Grammar

/-- A nonterminal stands in something that the start symbol derives. -/
def Reachable (grammar : Grammar) (name : Name) : Prop :=
  ∃ before after, grammar.Derives [.nonterminal grammar.start] (before ++ .nonterminal name :: after)

/-- A nonterminal derives the empty word, or something with a terminal in front. -/
def Begins (grammar : Grammar) (name : Name) : Prop :=
  grammar.Derives [.nonterminal name] [] ∨
    ∃ terminal rest, grammar.Derives [.nonterminal name] (.terminal terminal :: rest)

/-- A nonterminal derives a word of terminals. -/
def Productive (grammar : Grammar) (name : Name) : Prop :=
  ∃ word, Terminals word ∧ grammar.Derives [.nonterminal name] word

variable {grammar : Grammar} {symbols : List Symbol}

theorem Reachable.mem_nonterminals (wellFormed : grammar.WellFormed) {name : Name}
    (reachable : grammar.Reachable name) : name ∈ grammar.nonterminals := by
  obtain ⟨before, after, chain⟩ := reachable
  exact mem_nonterminals_of_derives wellFormed chain

theorem Productive.begins {name : Name} (productive : grammar.Productive name) :
    grammar.Begins name := by
  obtain ⟨word, terminals, chain⟩ := productive
  cases word with
  | nil => exact .inl chain
  | cons head rest =>
      obtain ⟨terminal, isTerminal⟩ := terminals head List.mem_cons_self
      exact .inr ⟨terminal, rest, isTerminal ▸ chain⟩

/-- Where all nonterminals are productive, every sequence of known symbols yields a word. -/
theorem exists_yields_of_productive
    (productive : ∀ name ∈ grammar.nonterminals, grammar.Productive name)
    (known : ∀ symbol ∈ symbols, grammar.Known symbol) : ∃ word, grammar.Yields symbols word := by
  induction symbols with
  | nil => exact ⟨[], .nil⟩
  | cons symbol rest ih =>
      obtain ⟨word, restYields⟩ := ih fun other inside => known other (List.mem_cons_of_mem _ inside)
      rcases known symbol List.mem_cons_self with ⟨name, isTerminal⟩ | ⟨name, isNonterminal, hasRule⟩
      · subst isTerminal
        exact ⟨_, .input rfl restYields⟩
      · subst isNonterminal
        obtain ⟨front, terminals, chain⟩ := productive name hasRule
        exact ⟨_, ((yields_iff grammar _ front).mpr ⟨chain, terminals.isInput⟩).append restYields⟩

/-- A sequence leads to a first symbol, or yields the empty word. -/
def Opening (grammar : Grammar) (symbols : List Symbol) : Prop :=
  (∃ head, grammar.Leads symbols [head]) ∨ grammar.Yields symbols []

theorem Begins.opening {name : Name} (begins : grammar.Begins name) :
    grammar.Opening [.nonterminal name] := by
  rcases begins with chain | ⟨terminal, rest, chain⟩
  · exact .inr ((yields_iff grammar _ _).mpr ⟨chain, by simp⟩)
  · refine .inl ⟨.terminal terminal, (leads_iff grammar _ _).mpr ⟨?_, rest, chain⟩⟩
    intro symbol inside
    rw [List.mem_singleton.mp inside]
    rfl

theorem opening_of_forall (opening : ∀ symbol ∈ symbols, grammar.Opening [symbol]) :
    grammar.Opening symbols := by
  induction symbols with
  | nil => exact .inr .nil
  | cons symbol rest ih =>
      have restOpening := ih fun other inside => opening other (List.mem_cons_of_mem _ inside)
      rcases opening symbol List.mem_cons_self with ⟨head, leads⟩ | yields
      · exact .inl ⟨head, leads.append_right rest⟩
      · rcases restOpening with ⟨head, leads⟩ | restYields
        · exact .inl ⟨head, yields.leads_append leads⟩
        · exact .inr (yields.append restYields)

/-- Whatever stands in a sequence derived from the start symbol and the end marker begins. -/
theorem opening_of_derives (wellFormed : grammar.WellFormed)
    (begins : ∀ name, grammar.Reachable name → grammar.Begins name) {before after : List Symbol}
    (chain : grammar.Derives [.nonterminal grammar.start, .endMarker] (before ++ (symbols ++ after)))
    (noEnd : Symbol.endMarker ∉ symbols) : grammar.Opening symbols := by
  obtain ⟨front, same, inner⟩ := chain.exists_front
  have known := Known.of_derives wellFormed inner (Known.start wellFormed)
  refine opening_of_forall fun symbol inside => ?_
  have listed : symbol ∈ front ++ [.endMarker] := by
    rw [← same]
    exact List.mem_append_right _ (List.mem_append_left _ inside)
  have inFront : symbol ∈ front := by
    rcases List.mem_append.mp listed with inFront | isEnd
    · exact inFront
    · exact absurd (List.mem_singleton.mp isEnd ▸ inside) noEnd
  rcases known symbol inFront with ⟨name, isTerminal⟩ | ⟨name, isNonterminal, _⟩
  · subst isTerminal
    exact .inl ⟨_, .input rfl (.nil [])⟩
  · subst isNonterminal
    obtain ⟨left, right, splits⟩ := List.append_of_mem inFront
    exact (begins name ⟨left, right, splits ▸ inner⟩).opening

end Lookahead.Grammar
