import Lookahead.Proofs.Grammar.Viable
import Lookahead.Proofs.LL1.Cells
import Lookahead.Proofs.LL1.Steps
import Lookahead.Proofs.Parse.Runs

/-!
# The predictive parser follows derivations

Where the sets of the grammar fill a table without conflicts, a sequence on the
stack that yields the next symbols of the input is found in them, expansion by
expansion, and one that leads to them is read that far.
-/

namespace Lookahead.LL1.Table

/-- A table without conflicts, made of the sets of its grammar. -/
structure Fits (table : Table) (grammar : Grammar) : Prop where
  wellFormed : grammar.WellFormed
  ok : build grammar grammar.firstSets grammar.follow = .ok table

variable {table : Table} {grammar : Grammar}

namespace Fits

theorem closed (fits : table.Fits grammar) :
    grammar.SetsClosed grammar.firstSets grammar.follow :=
  Grammar.setsClosed fits.wellFormed

theorem get?_eq_some_iff (fits : table.Fits grammar) (name : Name) (lookahead : Symbol)
    (index : Nat) : table.get? name lookahead = some index ↔
      ∃ production, grammar.production? name index = some production ∧
        grammar.firstSets.Opens (· ∈ grammar.follow.get name) production.body lookahead :=
  Table.get?_eq_some_iff fits.ok name lookahead index

/-- The parser expands a nonterminal by a body that the lookahead symbol can open. -/
theorem reaches_expand (fits : table.Fits grammar) {name : Name} {index : Nat}
    {production : Production} (found : grammar.production? name index = some production)
    (rest unread : List Symbol) (position : Nat)
    (opens : grammar.firstSets.Opens (· ∈ grammar.follow.get name) production.body
      (unread.headD .endMarker)) :
    Machine.Reaches table.step ⟨.nonterminal name :: rest, unread, position⟩
      ⟨production.body ++ rest, unread, position⟩ := by
  have cell := (fits.get?_eq_some_iff name (unread.headD .endMarker) index).mpr
    ⟨production, found, opens⟩
  have inTable : table.grammar.production? name index = some production := by
    rw [grammar_of_build fits.ok]
    exact found
  exact .single (step_expand unread cell inTable rest position)

/-- The parser finds what a sequence yields and takes the sequence off the stack. -/
theorem reaches_of_yields (fits : table.Fits grammar) {symbols word : List Symbol}
    (yields : grammar.Yields symbols word) (noEnd : Symbol.endMarker ∉ symbols)
    (more : List Symbol) (followed : Followed grammar.firstSets grammar.follow
      (· = more.headD .endMarker) symbols) (base : List Symbol) (position : Nat) :
    Machine.Reaches table.step ⟨symbols ++ base, word ++ more, position⟩
      ⟨base, more, position + word.length⟩ := by
  induction yields generalizing more base position with
  | nil => exact .refl _
  | @input symbol rest word isInput tail ih =>
      have restNoEnd : Symbol.endMarker ∉ rest := fun inside => noEnd (List.mem_cons_of_mem _ inside)
      rcases Symbol.eq_of_isInput isInput with ⟨name, isTerminal⟩ | isEnd
      · subst isTerminal
        have moved := ih restNoEnd more followed.tail base (position + 1)
        rw [Nat.add_right_comm] at moved
        exact moved.head (step_match name (rest ++ base) (word ++ more) position)
      · exact absurd (isEnd ▸ List.mem_cons_self) noEnd
  | @expand name index production rest front back found body tail bodyIH tailIH =>
      have restNoEnd : Symbol.endMarker ∉ rest := fun inside => noEnd (List.mem_cons_of_mem _ inside)
      have bodyNoEnd := fits.wellFormed.endMarker_not_mem_body found
      have comes := fits.closed.mem_follow_of_yields tail followed
      have opens := fits.closed.opens_append_of_yields body comes
      have bodyFollowed := fits.closed.followed_body_by found comes
      have expanded := fits.reaches_expand found (rest ++ base) (front ++ (back ++ more)) position opens
      have inBody := bodyIH bodyNoEnd (back ++ more) bodyFollowed (rest ++ base) position
      have inTail := tailIH restNoEnd more followed.tail base (position + front.length)
      rw [List.append_assoc, List.length_append, ← Nat.add_assoc]
      exact (expanded.trans inBody).trans inTail

/-- The parser reads a word that the sequence on the stack leads to. -/
theorem exists_reaches_of_leads (fits : table.Fits grammar) {symbols word : List Symbol}
    (leads : grammar.Leads symbols word) (noEnd : Symbol.endMarker ∉ symbols)
    (followed : Followed grammar.firstSets grammar.follow (fun _ => False) symbols)
    (base more : List Symbol) (position : Nat) :
    ∃ stack, Machine.Reaches table.step ⟨symbols ++ base, word ++ more, position⟩
      ⟨stack, more, position + word.length⟩ := by
  induction leads generalizing base position with
  | nil symbols => exact ⟨symbols ++ base, .refl _⟩
  | @input symbol rest word isInput tail ih =>
      have restNoEnd : Symbol.endMarker ∉ rest := fun inside => noEnd (List.mem_cons_of_mem _ inside)
      rcases Symbol.eq_of_isInput isInput with ⟨name, isTerminal⟩ | isEnd
      · subst isTerminal
        obtain ⟨stack, moved⟩ := ih restNoEnd followed.tail base (position + 1)
        rw [Nat.add_right_comm] at moved
        exact ⟨stack, moved.head (step_match name (rest ++ base) (word ++ more) position)⟩
      · exact absurd (isEnd ▸ List.mem_cons_self) noEnd
  | @inside name index production word rest found body ih =>
      cases word with
      | nil => exact ⟨_, .refl _⟩
      | cons head others =>
          have bodyFollowed := fits.closed.followed_body_alone found
          have expanded := fits.reaches_expand found (rest ++ base) (head :: others ++ more) position
            (fits.closed.opens_of_leads body)
          obtain ⟨stack, moved⟩ := ih (fits.wellFormed.endMarker_not_mem_body found) bodyFollowed
            (rest ++ base) position
          exact ⟨stack, expanded.trans moved⟩
  | @past name index production rest front back found body tail goesOn ih =>
      have restNoEnd : Symbol.endMarker ∉ rest := fun inside => noEnd (List.mem_cons_of_mem _ inside)
      obtain ⟨head, others, isCons⟩ := List.exists_cons_of_ne_nil goesOn
      subst isCons
      have comes : head ∈ grammar.follow.get name :=
        followed.1 head (fits.closed.opens_of_leads tail)
      have bodyFollowed := fits.closed.followed_body_by found comes
      have opens : grammar.firstSets.Opens (· ∈ grammar.follow.get name) production.body
          ((front ++ (head :: others ++ more)).headD .endMarker) :=
        fits.closed.opens_append_of_yields body comes
      have expanded := fits.reaches_expand found (rest ++ base) _ position opens
      have inBody := fits.reaches_of_yields body (fits.wellFormed.endMarker_not_mem_body found)
        (head :: others ++ more) bodyFollowed (rest ++ base) position
      obtain ⟨stack, inTail⟩ := ih restNoEnd followed.tail base (position + front.length)
      refine ⟨stack, ?_⟩
      rw [List.append_assoc, List.length_append, ← Nat.add_assoc]
      exact (expanded.trans inBody).trans inTail

end Fits
end Lookahead.LL1.Table
