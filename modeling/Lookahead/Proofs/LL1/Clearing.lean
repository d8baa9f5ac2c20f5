import Lookahead.Proofs.Grammar.Productions
import Lookahead.Proofs.LL1.Steps
import Lookahead.Proofs.Parse.Runs

/-!
# Steps of a predictive parser between reads

While nothing is read, nonterminals are expanded on one lookahead symbol.  A run
that gets on never expands a nonterminal inside its own expansion, which bounds
the steps that it makes and the stack that it leaves.
-/

namespace Lookahead.LL1.Table

def expansion? (table : Table) (lookahead : Symbol) (name : Name) : Option Production :=
  (table.get? name lookahead).bind (table.grammar.production? name)

/-- A symbol that is read or refused when it comes to the top of the stack. -/
def Stays (table : Table) (lookahead : Symbol) : Symbol → Prop
  | .nonterminal name => table.expansion? lookahead name = none
  | .epsilon => False
  | _ => True

/--
The top part of a stack is expanded, in a number of steps, until nothing is left of it or a symbol
that stays is on top of what is left.
-/
inductive Settles (table : Table) (lookahead : Symbol) : List Symbol → Nat → List Symbol → Prop where
  | gone : Settles table lookahead [] 0 []
  | stays {top : Symbol} {rest : List Symbol} (solid : table.Stays lookahead top) :
      Settles table lookahead (top :: rest) 0 (top :: rest)
  | epsilon {rest left : List Symbol} {count : Nat} (tail : Settles table lookahead rest count left) :
      Settles table lookahead (.epsilon :: rest) (count + 1) left
  | cleared {name : Name} {production : Production} {rest left : List Symbol} {first second : Nat}
      (found : table.expansion? lookahead name = some production)
      (body : Settles table lookahead production.body first [])
      (tail : Settles table lookahead rest second left) :
      Settles table lookahead (.nonterminal name :: rest) (first + second + 1) left
  | held {name : Name} {production : Production} {top : Symbol} {rest below : List Symbol}
      {count : Nat} (found : table.expansion? lookahead name = some production)
      (body : Settles table lookahead production.body count (top :: below)) :
      Settles table lookahead (.nonterminal name :: rest) (count + 1) (top :: below ++ rest)

variable {table : Table} {lookahead : Symbol} {symbols left unread : List Symbol}
  {count position : Nat}

theorem step_expansion {name : Name} {production : Production}
    (found : table.expansion? (unread.headD .endMarker) name = some production)
    (rest : List Symbol) (position : Nat) :
    table.step ⟨.nonterminal name :: rest, unread, position⟩ =
      .next ⟨production.body ++ rest, unread, position⟩ := by
  obtain ⟨index, cell, inGrammar⟩ := Option.bind_eq_some_iff.mp found
  simp only [step, Config.lookahead, cell, inGrammar]

/-- From a symbol that stays, a parse can only go on by reading it. -/
theorem exists_read_of_stays {top : Symbol} {rest : List Symbol} {next : Config}
    (solid : table.Stays (unread.headD .endMarker) top)
    (taken : table.step ⟨top :: rest, unread, position⟩ = .next next) :
    ∃ head more, unread = head :: more ∧ next = ⟨rest, more, position + 1⟩ := by
  cases top with
  | epsilon => exact solid.elim
  | endMarker =>
      by_cases same : unread.headD .endMarker = .endMarker
      · cases unread with
        | nil => exact absurd taken (by simp [step, Config.lookahead])
        | cons head more =>
            have isEnd : head = .endMarker := same
            rw [isEnd, step_endMarker] at taken
            exact absurd taken (by simp)
      · rw [step_refuse rfl rest unread position same] at taken
        exact absurd taken (by simp)
  | terminal name =>
      by_cases same : unread.headD .endMarker = .terminal name
      · cases unread with
        | nil => exact absurd same (by simp)
        | cons head more =>
            have isTerminal : head = .terminal name := same
            rw [isTerminal, step_match] at taken
            exact ⟨head, more, rfl, (Step.next.inj taken).symm⟩
      · rw [step_refuse rfl rest unread position same] at taken
        exact absurd taken (by simp)
  | nonterminal name =>
      have nothing : table.expansion? (unread.headD .endMarker) name = none := solid
      simp only [step, Config.lookahead] at taken
      split at taken
      · exact absurd taken (by simp)
      · rename_i index cell
        split at taken
        · exact absurd taken (by simp)
        · rename_i production found
          have something : table.expansion? (unread.headD .endMarker) name = some production :=
            Option.bind_eq_some_iff.mpr ⟨index, cell, found⟩
          cases nothing.symm.trans something

namespace Settles

theorem stays_head {top : Symbol} {below : List Symbol}
    (settles : table.Settles lookahead symbols count (top :: below)) :
    table.Stays lookahead top := by
  generalize same : top :: below = left at settles
  induction settles generalizing below with
  | gone => exact absurd same (by simp)
  | stays solid => exact (List.cons.inj same).1 ▸ solid
  | epsilon _ ih => exact ih same
  | cleared _ _ _ _ ih => exact ih same
  | held _ _ ih =>
      obtain ⟨sameTop, _⟩ := List.cons.inj same
      exact ih (congrArg (· :: _) sameTop)

theorem unique {other : Nat} {last : List Symbol}
    (one : table.Settles lookahead symbols count left)
    (two : table.Settles lookahead symbols other last) : count = other ∧ left = last := by
  induction one generalizing other last with
  | gone => cases two; exact ⟨rfl, rfl⟩
  | stays solid =>
      cases two with
      | stays => exact ⟨rfl, rfl⟩
      | epsilon => exact solid.elim
      | cleared found => cases found.symm.trans solid
      | held found => cases found.symm.trans solid
  | epsilon _ ih =>
      cases two with
      | stays solid => exact solid.elim
      | epsilon tail =>
          obtain ⟨sameCount, sameLeft⟩ := ih tail
          exact ⟨congrArg (· + 1) sameCount, sameLeft⟩
  | cleared found _ _ bodyIH tailIH =>
      cases two with
      | stays solid => cases found.symm.trans solid
      | cleared again body tail =>
          cases Option.some.inj (found.symm.trans again)
          obtain ⟨sameBody, _⟩ := bodyIH body
          obtain ⟨sameTail, sameLeft⟩ := tailIH tail
          exact ⟨by rw [sameBody, sameTail], sameLeft⟩
      | held again body =>
          cases Option.some.inj (found.symm.trans again)
          exact absurd (bodyIH body).2 (by simp)
  | held found _ ih =>
      cases two with
      | stays solid => cases found.symm.trans solid
      | cleared again body _ =>
          cases Option.some.inj (found.symm.trans again)
          exact absurd (ih body).2 (by simp)
      | held again body =>
          cases Option.some.inj (found.symm.trans again)
          obtain ⟨sameCount, sameLeft⟩ := ih body
          exact ⟨congrArg (· + 1) sameCount, congrArg (· ++ _) sameLeft⟩

/-- The parser does settle so, whatever is below. -/
theorem after_eq (settles : table.Settles (unread.headD .endMarker) symbols count left)
    (base : List Symbol) (position : Nat) :
    Machine.after table.step count ⟨symbols ++ base, unread, position⟩ =
      some ⟨left ++ base, unread, position⟩ := by
  generalize isHead : unread.headD .endMarker = lookahead at settles
  induction settles generalizing base with
  | gone => rfl
  | stays => rfl
  | epsilon _ ih => exact ih base
  | @cleared name production rest left first second found _ _ bodyIH tailIH =>
      subst isHead
      rw [List.cons_append, Machine.after_succ_of_next (step_expansion found (rest ++ base) position),
        Machine.after_add, bodyIH]
      exact tailIH base
  | @held name production top rest below count found _ ih =>
      subst isHead
      rw [List.cons_append, Machine.after_succ_of_next (step_expansion found (rest ++ base) position),
        ih, List.append_assoc]

end Settles

/-- A run that reads or stops within a number of steps settles each part of its stack before. -/
theorem exists_settles (table : Table) (symbols base unread : List Symbol) (position : Nat)
    (ends : ∀ stack,
      Machine.after table.step count ⟨symbols ++ base, unread, position⟩ ≠
        some ⟨stack, unread, position⟩) :
    ∃ spent left, table.Settles (unread.headD .endMarker) symbols spent left ∧ spent < count := by
  induction count using Nat.strongRecOn generalizing symbols base with
  | ind count ih =>
      cases count with
      | zero => exact absurd rfl (ends (symbols ++ base))
      | succ count =>
          cases symbols with
          | nil => exact ⟨0, [], .gone, Nat.succ_pos count⟩
          | cons top rest =>
              by_cases solid : table.Stays (unread.headD .endMarker) top
              · exact ⟨0, top :: rest, .stays solid, Nat.succ_pos count⟩
              · cases top with
                | terminal => exact absurd trivial solid
                | endMarker => exact absurd trivial solid
                | epsilon =>
                    obtain ⟨spent, left, tail, less⟩ := ih count (Nat.lt_succ_self count) rest base ends
                    exact ⟨spent + 1, left, .epsilon tail, Nat.succ_lt_succ less⟩
                | nonterminal name =>
                    obtain ⟨production, found⟩ := Option.ne_none_iff_exists'.mp solid
                    have taken := step_expansion found (rest ++ base) position
                    have bodyEnds : ∀ stack, Machine.after table.step count
                        ⟨production.body ++ (rest ++ base), unread, position⟩ ≠
                          some ⟨stack, unread, position⟩ := by
                      intro stack
                      rw [← Machine.after_succ_of_next taken]
                      exact ends stack
                    obtain ⟨first, left, body, less⟩ := ih count (Nat.lt_succ_self count) _ _ bodyEnds
                    -- The body leaves a symbol that stays, or clears and the rest has its turn.
                    cases left with
                    | cons head below => exact ⟨first + 1, _, .held found body, Nat.succ_lt_succ less⟩
                    | nil =>
                        have passed := body.after_eq (rest ++ base) position
                        have tailEnds : ∀ stack, Machine.after table.step (count - first)
                            ⟨rest ++ base, unread, position⟩ ≠ some ⟨stack, unread, position⟩ := by
                          intro stack same
                          apply bodyEnds stack
                          rw [← Nat.add_sub_cancel' (Nat.le_of_lt less), Machine.after_add, passed]
                          exact same
                        obtain ⟨second, left, tail, tailLess⟩ := ih (count - first)
                          (Nat.lt_succ_of_le (Nat.sub_le count first)) rest base tailEnds
                        refine ⟨first + second + 1, left, .cleared found body tail, ?_⟩
                        omega

end Lookahead.LL1.Table
