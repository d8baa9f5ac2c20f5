import Lookahead.Grammar.Derivation

/-!
# Words that sequences derive

A sequence yields a word of input symbols when it derives it, and leads to a word
when it derives a sequence that begins with it.  Both are told along the bodies
that are used, from left to right, and agree with chains of derivation steps.
-/

namespace Lookahead.Grammar

/-- A sequence derives a word of input symbols; each nonterminal yields its part of it. -/
inductive Yields (grammar : Grammar) : List Symbol → List Symbol → Prop where
  | nil : Yields grammar [] []
  | input {symbol : Symbol} {rest word : List Symbol} (isInput : symbol.isInput = true)
      (tail : Yields grammar rest word) : Yields grammar (symbol :: rest) (symbol :: word)
  | expand {name : Name} {index : Nat} {production : Production} {rest first second : List Symbol}
      (found : grammar.production? name index = some production)
      (body : Yields grammar production.body first) (tail : Yields grammar rest second) :
      Yields grammar (.nonterminal name :: rest) (first ++ second)

/--
A sequence derives a sequence that begins with a word of input symbols.  The word may end inside
the part of a nonterminal, and whatever comes after its end is left as it is.
-/
inductive Leads (grammar : Grammar) : List Symbol → List Symbol → Prop where
  | nil (symbols : List Symbol) : Leads grammar symbols []
  | input {symbol : Symbol} {rest word : List Symbol} (isInput : symbol.isInput = true)
      (tail : Leads grammar rest word) : Leads grammar (symbol :: rest) (symbol :: word)
  | inside {name : Name} {index : Nat} {production : Production} {word : List Symbol}
      (rest : List Symbol) (found : grammar.production? name index = some production)
      (body : Leads grammar production.body word) :
      Leads grammar (.nonterminal name :: rest) word
  | past {name : Name} {index : Nat} {production : Production} {rest first second : List Symbol}
      (found : grammar.production? name index = some production)
      (body : Yields grammar production.body first) (tail : Leads grammar rest second)
      (goesOn : second ≠ []) : Leads grammar (.nonterminal name :: rest) (first ++ second)

namespace Yields

variable {grammar : Grammar}

theorem append {left right first second : List Symbol} (one : Yields grammar left first)
    (other : Yields grammar right second) :
    Yields grammar (left ++ right) (first ++ second) := by
  induction one with
  | nil => exact other
  | input isInput _ ih => exact .input isInput ih
  | expand found body _ _ ih =>
      rw [List.append_assoc]
      exact .expand found body ih

theorem of_append {left right word : List Symbol}
    (whole : Yields grammar (left ++ right) word) :
    ∃ first second, word = first ++ second ∧ Yields grammar left first ∧
      Yields grammar right second := by
  induction left generalizing word with
  | nil => exact ⟨[], word, rfl, .nil, whole⟩
  | cons head rest ih =>
      cases whole with
      | input isInput tail =>
          obtain ⟨first, second, same, one, other⟩ := ih tail
          exact ⟨head :: first, second, by rw [same]; rfl, .input isInput one, other⟩
      | @expand _ _ _ _ front back found body tail =>
          obtain ⟨first, second, same, one, other⟩ := ih tail
          exact ⟨front ++ first, second, by rw [same, List.append_assoc],
            .expand found body one, other⟩

theorem single {name : Name} {index : Nat} {production : Production} {word : List Symbol}
    (found : grammar.production? name index = some production)
    (body : Yields grammar production.body word) : Yields grammar [.nonterminal name] word := by
  simpa using Yields.expand found body .nil

theorem isInput {symbols word : List Symbol} (yields : Yields grammar symbols word) :
    ∀ symbol ∈ word, symbol.isInput = true := by
  induction yields with
  | nil => exact List.forall_mem_nil _
  | input isInput _ ih =>
      intro symbol inside
      rcases List.mem_cons.mp inside with here | later
      · exact here ▸ isInput
      · exact ih symbol later
  | expand _ _ _ bodyIH tailIH =>
      intro symbol inside
      rcases List.mem_append.mp inside with inBody | inTail
      · exact bodyIH symbol inBody
      · exact tailIH symbol inTail

theorem of_isInput {word : List Symbol} (inputs : ∀ symbol ∈ word, symbol.isInput = true) :
    Yields grammar word word := by
  induction word with
  | nil => exact .nil
  | cons head rest ih =>
      exact .input (inputs head (by simp)) (ih fun symbol inside => inputs symbol (by simp [inside]))

theorem derives {symbols word : List Symbol} (yields : Yields grammar symbols word) :
    Derives grammar symbols word := by
  induction yields with
  | nil => exact .refl []
  | @input symbol _ _ _ _ ih => exact Derives.append (.refl [symbol]) ih
  | expand found _ _ bodyIH tailIH =>
      exact ((Derives.of_production found).trans bodyIH).append tailIH

theorem leads_append {left right first second : List Symbol} (one : Yields grammar left first)
    (other : Leads grammar right second) :
    Leads grammar (left ++ right) (first ++ second) := by
  induction one generalizing right second with
  | nil => exact other
  | input isInput _ ih => exact .input isInput (ih other)
  | @expand name index production rest front back found body tail bodyIH tailIH =>
      rw [List.append_assoc]
      by_cases stops : back ++ second = []
      · have inBody := bodyIH (.nil [])
        rw [List.append_nil, List.append_nil] at inBody
        rw [stops, List.append_nil]
        exact .inside (rest ++ right) found inBody
      · exact .past found body (tailIH other) stops

theorem leads {symbols word : List Symbol} (yields : Yields grammar symbols word) :
    Leads grammar symbols word := by
  simpa using yields.leads_append (.nil [])

theorem of_produces {symbols next word : List Symbol} (step : Produces grammar symbols next)
    (yields : Yields grammar next word) : Yields grammar symbols word := by
  cases step with
  | expand before after found =>
      obtain ⟨first, rest, same, beforePart, restPart⟩ := yields.of_append
      obtain ⟨second, third, sameRest, bodyPart, afterPart⟩ := restPart.of_append
      rw [same, sameRest]
      exact beforePart.append (.expand found bodyPart afterPart)

theorem of_derives {symbols last word : List Symbol} (chain : Derives grammar symbols last)
    (yields : Yields grammar last word) : Yields grammar symbols word := by
  induction chain with
  | refl => exact yields
  | step _ next ih => exact ih (of_produces next yields)

end Yields

/-- To yield a word is to derive it, when it is made of input symbols. -/
theorem yields_iff (grammar : Grammar) (symbols word : List Symbol) :
    grammar.Yields symbols word ↔
      grammar.Derives symbols word ∧ ∀ symbol ∈ word, symbol.isInput = true := by
  constructor
  · intro yields
    exact ⟨yields.derives, yields.isInput⟩
  · rintro ⟨chain, inputs⟩
    exact .of_derives chain (.of_isInput inputs)

namespace Leads

variable {grammar : Grammar}

theorem append_right {left word : List Symbol} (right : List Symbol)
    (leads : Leads grammar left word) : Leads grammar (left ++ right) word := by
  induction leads with
  | nil symbols => exact .nil (symbols ++ right)
  | input isInput _ ih => exact .input isInput ih
  | inside rest found body _ => exact .inside (rest ++ right) found body
  | past found body _ goesOn ih => exact .past found body ih goesOn

/-- A word that two parts lead to is led to by the first, or ends in the second. -/
theorem of_append {left right word : List Symbol} (whole : Leads grammar (left ++ right) word) :
    Leads grammar left word ∨ ∃ first second, word = first ++ second ∧
      Yields grammar left first ∧ Leads grammar right second := by
  induction left generalizing word with
  | nil => exact .inr ⟨[], word, rfl, .nil, whole⟩
  | cons head rest ih =>
      cases whole with
      | nil => exact .inl (.nil _)
      | input isInput tail =>
          rcases ih tail with inLeft | ⟨first, second, same, one, other⟩
          · exact .inl (.input isInput inLeft)
          · exact .inr ⟨head :: first, second, by rw [same]; rfl, .input isInput one, other⟩
      | inside _ found body => exact .inl (.inside rest found body)
      | @past _ _ _ _ front back found body tail goesOn =>
          rcases ih tail with inLeft | ⟨first, second, same, one, other⟩
          · exact .inl (.past found body inLeft goesOn)
          · exact .inr ⟨front ++ first, second, by rw [same, List.append_assoc],
              .expand found body one, other⟩

theorem isInput {symbols word : List Symbol} (leads : Leads grammar symbols word) :
    ∀ symbol ∈ word, symbol.isInput = true := by
  induction leads with
  | nil => exact List.forall_mem_nil _
  | input isInput _ ih =>
      intro symbol inside
      rcases List.mem_cons.mp inside with here | later
      · exact here ▸ isInput
      · exact ih symbol later
  | inside _ _ _ ih => exact ih
  | past _ body _ _ ih =>
      intro symbol inside
      rcases List.mem_append.mp inside with inBody | inTail
      · exact body.isInput symbol inBody
      · exact ih symbol inTail

theorem exists_derives {symbols word : List Symbol} (leads : Leads grammar symbols word) :
    ∃ rest, Derives grammar symbols (word ++ rest) := by
  induction leads with
  | nil symbols => exact ⟨symbols, .refl symbols⟩
  | @input symbol _ _ _ _ ih =>
      obtain ⟨rest, chain⟩ := ih
      exact ⟨rest, Derives.append (.refl [symbol]) chain⟩
  | inside after found _ ih =>
      obtain ⟨rest, chain⟩ := ih
      refine ⟨rest ++ after, ?_⟩
      rw [← List.append_assoc]
      exact ((Derives.of_production found).trans chain).append (.refl after)
  | past found body _ _ ih =>
      obtain ⟨rest, chain⟩ := ih
      refine ⟨rest, ?_⟩
      rw [List.append_assoc]
      exact ((Derives.of_production found).trans body.derives).append chain

theorem of_produces {symbols next word : List Symbol} (step : Produces grammar symbols next)
    (leads : Leads grammar next word) : Leads grammar symbols word := by
  cases step with
  | expand before after found =>
      rcases leads.of_append with inBefore | ⟨first, rest, same, beforePart, restPart⟩
      · exact inBefore.append_right _
      · rw [same]
        rcases restPart.of_append with inBody | ⟨second, third, sameRest, bodyPart, afterPart⟩
        · exact beforePart.leads_append (.inside after found inBody)
        · rw [sameRest]
          have expanded := (Yields.single found bodyPart).leads_append afterPart
          exact beforePart.leads_append expanded

theorem of_derives {symbols last word : List Symbol} (chain : Derives grammar symbols last)
    (leads : Leads grammar last word) : Leads grammar symbols word := by
  induction chain with
  | refl => exact leads
  | step _ next ih => exact ih (of_produces next leads)

end Leads

/-- To lead to a word is to derive a sequence that begins with it. -/
theorem leads_iff (grammar : Grammar) (symbols word : List Symbol) :
    grammar.Leads symbols word ↔
      (∀ symbol ∈ word, symbol.isInput = true) ∧
        ∃ rest, grammar.Derives symbols (word ++ rest) := by
  constructor
  · intro leads
    exact ⟨leads.isInput, leads.exists_derives⟩
  · rintro ⟨inputs, rest, chain⟩
    exact .of_derives chain ((Yields.of_isInput inputs).leads.append_right rest)

end Lookahead.Grammar
