import Lookahead.Data.Exploration
import Lookahead.Proofs.LL1.Clearing
import Lookahead.Proofs.Parse.Budget

/-!
# The step bound of the predictive parser

The nonterminals that are being expanded at one time are different, so what is
on top of the stack settles within a power of the length of the longest body.
The bound on the steps of a parse is never too low.
-/

namespace Lookahead.LL1.Table

variable {table : Table} {lookahead : Symbol} {symbols left : List Symbol} {count position : Nat}

abbrev rules (table : Table) : Nat := table.grammar.rules.length

/-- The steps that settle one symbol, inside expansions of all but some of the nonterminals. -/
def cost (table : Table) (depth : Nat) : Nat := Nat.pow (table.longestBody + 1) depth

theorem cost_pos (table : Table) (depth : Nat) : 0 < table.cost depth :=
  Nat.pow_pos (Nat.succ_pos _)

theorem cost_succ (table : Table) (depth : Nat) :
    table.longestBody * table.cost depth + 1 ≤ table.cost (depth + 1) := by
  have grown : table.cost (depth + 1) = table.cost depth * (table.longestBody + 1) :=
    Nat.pow_succ _ _
  rw [grown, Nat.mul_comm, Nat.mul_succ]
  exact Nat.add_le_add_left (cost_pos table depth) _

/-- A fold that never shrinks ends above what any of its steps gives. -/
theorem le_foldl {α : Type} {f : Nat → α → Nat} (grows : ∀ most value, most ≤ f most value)
    (values : List α) (least : Nat) : least ≤ values.foldl f least ∧
      ∀ value ∈ values, ∀ size, (∀ most, size ≤ f most value) → size ≤ values.foldl f least := by
  induction values generalizing least with
  | nil => exact ⟨Nat.le_refl least, List.forall_mem_nil _⟩
  | cons head rest ih =>
      obtain ⟨fromHead, fromRest⟩ := ih (f least head)
      refine ⟨Nat.le_trans (grows least head) fromHead, ?_⟩
      intro value inside size under
      rcases List.mem_cons.mp inside with here | later
      · exact Nat.le_trans (here ▸ under least) fromHead
      · exact fromRest value later size under

theorem length_le_longestBody {name : Name} {production : Production}
    (found : table.expansion? lookahead name = some production) :
    production.body.length ≤ table.longestBody := by
  obtain ⟨index, _, inGrammar⟩ := Option.bind_eq_some_iff.mp found
  obtain ⟨rule, ruleFound, listed⟩ := Grammar.production?_eq_some_iff.mp inGrammar
  have grows : ∀ (most : Nat) (production : Production), most ≤ max most production.length :=
    fun most _ => Nat.le_max_left most _
  refine (le_foldl (fun most rule => (le_foldl grows rule.productions most).1) _ 0).2 rule
    (Grammar.mem_rules_of_rule? ruleFound).1 _ ?_
  intro most
  exact (le_foldl grows rule.productions most).2 production (List.mem_of_getElem? listed) _
    fun least => Nat.le_max_right least _

theorem mem_nonterminals_of_expansion? {name : Name} {production : Production}
    (found : table.expansion? lookahead name = some production) :
    name ∈ table.grammar.nonterminals := by
  obtain ⟨_, _, inGrammar⟩ := Option.bind_eq_some_iff.mp found
  exact Grammar.mem_nonterminals_of_production? inGrammar

/-- Different nonterminals whose expansions all take longer than a number of steps. -/
structure Open (table : Table) (lookahead : Symbol) (count : Nat) (names : List Name) : Prop where
  nodup : names.Nodup
  known : ∀ name ∈ names, name ∈ table.grammar.nonterminals
  longer : ∀ name ∈ names, ∃ more left,
    table.Settles lookahead [.nonterminal name] more left ∧ count < more

namespace Open

variable {names : List Name}

theorem mono {less : Nat} (isOpen : table.Open lookahead count names) (le : less ≤ count) :
    table.Open lookahead less names where
  nodup := isOpen.nodup
  known := isOpen.known
  longer := by
    intro name inside
    obtain ⟨more, left, settles, longer⟩ := isOpen.longer name inside
    exact ⟨more, left, settles, Nat.lt_of_le_of_lt le longer⟩

/-- A nonterminal that is expanded is not open already. -/
theorem cons {name : Name} {spent : Nat} (isOpen : table.Open lookahead count names)
    (known : name ∈ table.grammar.nonterminals)
    (settles : table.Settles lookahead [.nonterminal name] (spent + 1) left)
    (within : spent + 1 ≤ count) : table.Open lookahead spent (name :: names) where
  nodup := by
    refine List.nodup_cons.mpr ⟨fun inside => ?_, isOpen.nodup⟩
    obtain ⟨more, last, again, longer⟩ := isOpen.longer name inside
    rw [(again.unique settles).1] at longer
    exact Nat.lt_irrefl _ (Nat.lt_of_lt_of_le longer within)
  known := by
    intro other inside
    rcases List.mem_cons.mp inside with here | later
    · exact here ▸ known
    · exact isOpen.known other later
  longer := by
    intro other inside
    rcases List.mem_cons.mp inside with here | later
    · exact ⟨spent + 1, left, here ▸ settles, Nat.lt_succ_self spent⟩
    · exact (isOpen.mono (Nat.le_trans (Nat.le_succ spent) within)).longer other later

theorem length_le (isOpen : table.Open lookahead count names) : names.length ≤ table.rules := by
  have le := length_le_of_nodup_of_subset isOpen.nodup isOpen.known
  rw [Grammar.nonterminals, List.length_map] at le
  exact le

/-- Inside one more expansion, one rule less is left to be expanded. -/
theorem rules_sub {name : Name} (isOpen : table.Open lookahead count (name :: names)) :
    table.rules - names.length = table.rules - (name :: names).length + 1 := by
  have le := isOpen.length_le
  rw [List.length_cons] at le ⊢
  omega

end Open

/-- What settles beneath open expansions takes few steps and leaves little. -/
structure Modest (table : Table) (depth : Nat) (symbols : List Symbol) (count : Nat)
    (left : List Symbol) : Prop where
  steps : count ≤ symbols.length * table.cost depth
  again : left ≠ [] → count + 1 ≤ symbols.length * table.cost depth
  leaves : left.length ≤ symbols.length + depth * table.longestBody

/-- The step that expands a symbol on top is paid by its own share. -/
theorem add_cost_le {depth spent : Nat} {name : Name} {production : Production}
    (found : table.expansion? lookahead name = some production) (rest : List Symbol)
    (steps : spent ≤ production.body.length * table.cost depth) :
    spent + 1 + rest.length * table.cost (depth + 1) ≤
      (Symbol.nonterminal name :: rest).length * table.cost (depth + 1) := by
  have body := Nat.mul_le_mul_right (table.cost depth) (length_le_longestBody found)
  have share := cost_succ table depth
  rw [List.length_cons, Nat.succ_mul]
  omega

/-- A body that is left standing on what was below the symbol expanded. -/
theorem length_append_le {depth : Nat} {name : Name} {production : Production}
    (found : table.expansion? lookahead name = some production) (rest : List Symbol)
    (leaves : left.length ≤ production.body.length + depth * table.longestBody) :
    (left ++ rest).length ≤
      (Symbol.nonterminal name :: rest).length + (depth + 1) * table.longestBody := by
  have body := length_le_longestBody found
  rw [List.length_append, List.length_cons, Nat.succ_mul]
  omega

theorem Settles.modest (settles : table.Settles lookahead symbols count left)
    {names : List Name} (isOpen : table.Open lookahead count names) :
    table.Modest (table.rules - names.length) symbols count left := by
  induction settles generalizing names with
  | gone => exact ⟨Nat.zero_le _, fun never => absurd rfl never, Nat.zero_le _⟩
  | stays =>
      refine ⟨Nat.zero_le _, fun _ => ?_, Nat.le_add_right _ _⟩
      exact Nat.mul_pos (Nat.succ_pos _) (cost_pos table _)
  | epsilon _ ih =>
      have tail := ih (isOpen.mono (Nat.le_succ _))
      have share := cost_pos table (table.rules - names.length)
      refine ⟨?_, fun some => ?_, ?_⟩
      · rw [List.length_cons, Nat.succ_mul]
        exact Nat.add_le_add tail.steps share
      · rw [List.length_cons, Nat.succ_mul]
        exact Nat.add_le_add (tail.again some) share
      · exact Nat.le_trans tail.leaves (Nat.add_le_add_right (Nat.le_succ _) _)
  | @cleared name production rest left first second found body _ bodyIH tailIH =>
      have inner := isOpen.cons (mem_nonterminals_of_expansion? found)
        (.cleared found body .gone) (by omega)
      have tail := tailIH (isOpen.mono (by omega))
      have paid := add_cost_le found rest (bodyIH inner).steps
      rw [inner.rules_sub] at tail ⊢
      refine ⟨?_, fun some => ?_, ?_⟩
      · have steps := tail.steps
        omega
      · have again := tail.again some
        omega
      · exact Nat.le_trans tail.leaves (Nat.add_le_add_right (Nat.le_succ _) _)
  | @held name production top rest below count found body ih =>
      have alone : table.Settles lookahead [.nonterminal name] (count + 1) (top :: below ++ []) :=
        .held found body
      have inner := isOpen.cons (mem_nonterminals_of_expansion? found) alone (Nat.le_refl _)
      have modest := ih inner
      have paid := add_cost_le found rest (modest.again (by simp))
      rw [inner.rules_sub]
      refine ⟨by omega, fun _ => by omega, ?_⟩
      exact length_append_le found rest modest.leaves

/-- A stack settles within its share of the bound, and little is left of it. -/
theorem modest_of_settles (settles : table.Settles lookahead symbols count left) :
    table.Modest table.rules symbols count left := by
  have isOpen : table.Open lookahead count [] :=
    ⟨.nil, List.forall_mem_nil _, List.forall_mem_nil _⟩
  exact settles.modest isOpen

/-- A run that stops settles between two reads. -/
theorem segment (table : Table) {config : Config} {result : ParseResult}
    (halts : Machine.Halts table.step config result) :
    Machine.Segment table.step (fun config => config.stack.length)
      (fun config => config.unread.length) (table.cost table.rules)
      (table.rules * table.longestBody) config := by
  obtain ⟨stack, unread, position⟩ := config
  obtain ⟨bound, stopped⟩ := Machine.exists_after_eq_none halts
  have ends : ∀ last, Machine.after table.step bound ⟨stack ++ [], unread, position⟩ ≠
      some ⟨last, unread, position⟩ := by
    intro last found
    rw [List.append_nil, stopped] at found
    exact absurd found (by simp)
  obtain ⟨count, left, settles, _⟩ := exists_settles table stack [] unread position ends
  have modest := modest_of_settles settles
  have passed := settles.after_eq [] position
  rw [List.append_nil, List.append_nil] at passed
  refine ⟨count, ⟨left, unread, position⟩, passed, modest.steps, ?_⟩
  intro next taken
  cases left with
  | nil => exact absurd taken (by simp [step])
  | cons top below =>
      obtain ⟨head, more, isUnread, isNext⟩ := exists_read_of_stays settles.stays_head taken
      subst isUnread isNext
      exact ⟨modest.again (by simp), rfl, Nat.le_trans (Nat.le_succ _) modest.leaves⟩

/-- The step bound cuts off only parses that never stop. -/
theorem parse?_eq_some_iff (table : Table) (input : List Symbol) (result : ParseResult) :
    table.parse? input = some result ↔ Machine.Halts table.step (table.initial input) result := by
  constructor
  · intro finished
    exact (Machine.exists_run_eq_some_iff _ _ _).mp ⟨_, finished⟩
  · intro halts
    have finished := Machine.run_budget _ _ _ _ (fun _ _ => segment table) halts
    refine Machine.run_eq_some_of_le _ ?_ _ _ finished
    have share := cost_pos table table.rules
    have same : table.stepBound input =
        ((endTerminated input).length + 1) * (2 + (endTerminated input).length *
          (table.rules * table.longestBody)) * table.cost table.rules + table.cost table.rules :=
      Nat.succ_mul _ _
    rw [same]
    exact Nat.add_le_add_left share _

end Lookahead.LL1.Table
