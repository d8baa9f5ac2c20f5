import Lookahead.Proofs.Sets.First
import Mathlib.Data.Finset.Card
import Mathlib.Order.Monotone.Basic

/-!
# How many passes find the FIRST sets

Where a pass puts a symbol depends only on the sets that hold it already and on the
names that can vanish.  While a symbol spreads, each pass brings it to one more name
at least, so what can vanish is known after as many passes as there are rules, and
all else after as many passes again.
-/

namespace Lookahead

namespace SetFamily

variable {family first second : SetFamily} {symbol : Symbol}

theorem Uniform.firstPass (uniform : family.Uniform) (grammar : Grammar) :
    (grammar.firstPass family).Uniform := by
  unfold Grammar.firstPass
  induction grammar.indexedProductions generalizing family with
  | nil => exact uniform
  | cons head rest ih => exact ih (uniform.extend _ _)

/-- Two families have the same names, and the same of these vanish and hold a symbol. -/
structure Alike (symbol : Symbol) (first second : SetFamily) : Prop where
  names : ∀ name, first.get? name ≠ none ↔ second.get? name ≠ none
  vanishing : ∀ name, .epsilon ∈ first.get name ↔ .epsilon ∈ second.get name
  holders : ∀ name, symbol ∈ first.get name ↔ symbol ∈ second.get name

namespace Alike

/-- FIRST of a sequence holds a symbol by the sets that hold it and the names that vanish. -/
theorem mem_firstOf_iff (alike : Alike symbol first second) (symbols : List Symbol) :
    symbol ∈ first.firstOf symbols ↔ symbol ∈ second.firstOf symbols := by
  induction symbols with
  | nil => exact Iff.rfl
  | cons head rest ih =>
      cases head with
      | epsilon => exact ih
      | terminal name => exact Iff.rfl
      | endMarker => exact Iff.rfl
      | nonterminal name =>
          rw [mem_firstOf_nonterminal, mem_firstOf_nonterminal, alike.holders, alike.vanishing, ih]

theorem epsilon (alike : Alike symbol first second) : Alike .epsilon first second :=
  ⟨alike.names, alike.vanishing, alike.vanishing⟩

theorem mem_get_firstStep_iff (alike : Alike symbol first second)
    (production : Name × Nat × Production) (name : Name) :
    symbol ∈ (Grammar.firstStep first production).get name ↔
      symbol ∈ (Grammar.firstStep second production).get name := by
  rw [Grammar.firstStep, Grammar.firstStep, get_extend, get_extend, alike.holders, alike.names,
    alike.mem_firstOf_iff]

theorem firstStep (alike : Alike symbol first second) (production : Name × Nat × Production) :
    Alike symbol (Grammar.firstStep first production) (Grammar.firstStep second production) where
  names := fun name => (get?_extend_ne_none_iff _ _ _ _).trans
    ((alike.names name).trans (get?_extend_ne_none_iff _ _ _ _).symm)
  vanishing := alike.epsilon.mem_get_firstStep_iff production
  holders := alike.mem_get_firstStep_iff production

/-- A pass does the same to a symbol in both families. -/
theorem firstPass (alike : Alike symbol first second) (grammar : Grammar) :
    Alike symbol (grammar.firstPass first) (grammar.firstPass second) := by
  unfold Grammar.firstPass
  induction grammar.indexedProductions generalizing first second with
  | nil => exact alike
  | cons head rest ih => exact ih (alike.firstStep head)

end Alike

end SetFamily

namespace Grammar

open Lookahead.SetFamily (Alike)

variable {grammar : Grammar} {symbol : Symbol}

def afterPasses (grammar : Grammar) (count : Nat) : SetFamily :=
  grammar.firstPass^[count] (.ofNames grammar.nonterminals)

theorem afterPasses_succ (grammar : Grammar) (count : Nat) :
    grammar.afterPasses (count + 1) = grammar.firstPass (grammar.afterPasses count) :=
  Function.iterate_succ_apply' _ _ _

/-- The passes go on until one adds nothing, and all of them are counted. -/
theorem exists_firstLimit_eq (grammar : Grammar) (family : SetFamily) :
    ∃ count, grammar.firstLimit family = (grammar.firstPass^[count] family, count + 1) ∧
      ∀ earlier < count, grammar.firstPass (grammar.firstPass^[earlier] family) ≠
        grammar.firstPass^[earlier] family := by
  fun_induction firstLimit grammar family with
  | case1 family fixed => exact ⟨0, rfl, fun earlier less => absurd less (Nat.not_lt_zero earlier)⟩
  | case2 family changed limit passes isLimit ih =>
      obtain ⟨count, same, before⟩ := ih
      rw [isLimit] at same
      obtain ⟨isFamily, isCount⟩ := Prod.mk.inj same
      refine ⟨count + 1, by rw [isFamily, isCount]; rfl, fun earlier less => ?_⟩
      cases earlier with
      | zero => exact changed
      | succ earlier => exact before earlier (Nat.lt_of_succ_lt_succ less)

theorem get?_afterPasses_ne_none_iff (grammar : Grammar) (count : Nat) (name : Name) :
    (grammar.afterPasses count).get? name ≠ none ↔ name ∈ grammar.nonterminals := by
  induction count with
  | zero => exact SetFamily.get?_ofNames_ne_none_iff _ _
  | succ count ih =>
      rw [afterPasses_succ]
      exact (get?_firstPass_ne_none_iff _ _ _).trans ih

theorem uniform_afterPasses (grammar : Grammar) (count : Nat) :
    (grammar.afterPasses count).Uniform := by
  induction count with
  | zero => exact SetFamily.uniform_ofNames _
  | succ count ih =>
      rw [afterPasses_succ]
      exact ih.firstPass grammar

theorem mem_get_firstPass_of_mem {family : SetFamily} {name : Name}
    (inside : symbol ∈ family.get name) : symbol ∈ (grammar.firstPass family).get name := by
  unfold firstPass
  induction grammar.indexedProductions generalizing family with
  | nil => exact inside
  | cons head rest ih => exact ih ((family.get_extend _ _ _ _).mpr (.inl inside))

def holders (grammar : Grammar) (symbol : Symbol) (count : Nat) : Finset Name :=
  grammar.nonterminals.toFinset.filter fun name => symbol ∈ (grammar.afterPasses count).get name

theorem mem_holders_iff {count : Nat} {name : Name} :
    name ∈ grammar.holders symbol count ↔ symbol ∈ (grammar.afterPasses count).get name := by
  simp only [holders, Finset.mem_filter, List.mem_toFinset, and_iff_right_iff_imp]
  intro inside
  rw [← get?_afterPasses_ne_none_iff grammar count]
  intro missing
  rw [SetFamily.get, missing] at inside
  exact SortedSet.not_mem_empty symbol inside

theorem card_holders_le (grammar : Grammar) (symbol : Symbol) (count : Nat) :
    (grammar.holders symbol count).card ≤ grammar.rules.length := by
  refine (Finset.card_filter_le _ _).trans ((List.toFinset_card_le _).trans ?_)
  rw [nonterminals, List.length_map]

theorem holders_subset_succ (grammar : Grammar) (symbol : Symbol) (count : Nat) :
    grammar.holders symbol count ⊆ grammar.holders symbol (count + 1) := by
  intro name inside
  rw [mem_holders_iff] at inside ⊢
  rw [afterPasses_succ]
  exact mem_get_firstPass_of_mem inside

/-- A pass changes neither the sets that hold a symbol nor the names that vanish. -/
def Keeps (grammar : Grammar) (symbol : Symbol) (count : Nat) : Prop :=
  Alike symbol (grammar.afterPasses count) (grammar.afterPasses (count + 1))

theorem Keeps.succ {count : Nat} (keeps : grammar.Keeps symbol count) :
    grammar.Keeps symbol (count + 1) := by
  have next := keeps.firstPass grammar
  rwa [← afterPasses_succ, ← afterPasses_succ] at next

theorem Keeps.of_le {count later : Nat} (keeps : grammar.Keeps symbol count) (le : count ≤ later) :
    grammar.Keeps symbol later := by
  induction later, le using Nat.le_induction with
  | base => exact keeps
  | succ later _ ih => exact ih.succ

theorem Keeps.holders_eq {count : Nat} (keeps : grammar.Keeps symbol count) :
    grammar.holders symbol count = grammar.holders symbol (count + 1) := by
  ext name
  rw [mem_holders_iff, mem_holders_iff]
  exact keeps.holders name

/-- A pass keeps all when it keeps the names that vanish and brings a symbol to no new name. -/
theorem keeps_of_holders_eq {count : Nat}
    (vanishing : grammar.holders .epsilon count = grammar.holders .epsilon (count + 1))
    (same : grammar.holders symbol count = grammar.holders symbol (count + 1)) :
    grammar.Keeps symbol count where
  names := fun name => (get?_afterPasses_ne_none_iff grammar count name).trans
    (get?_afterPasses_ne_none_iff grammar (count + 1) name).symm
  vanishing := fun name => by rw [← mem_holders_iff, ← mem_holders_iff, vanishing]
  holders := fun name => by rw [← mem_holders_iff, ← mem_holders_iff, same]

/--
Let every pass from some pass on that brings a symbol to no new name keep all.  Then all is kept
from as many passes later on as there are rules.
-/
theorem keeps_of_settling (start : Nat) (settling : ∀ count, start ≤ count →
    grammar.holders symbol count = grammar.holders symbol (count + 1) →
      grammar.Keeps symbol count) :
    grammar.Keeps symbol (start + grammar.rules.length) := by
  have grows : Monotone fun more => (grammar.holders symbol (start + more)).card :=
    monotone_nat_of_le_succ fun more => Finset.card_le_card (grammar.holders_subset_succ symbol _)
  have keeps : ∀ more, (grammar.holders symbol (start + more)).card =
      (grammar.holders symbol (start + (more + 1))).card → grammar.Keeps symbol (start + more) :=
    fun more same => settling _ (Nat.le_add_right start more)
      (Finset.eq_of_subset_of_card_le (grammar.holders_subset_succ symbol _) same.ge)
  have settled := Nat.stabilises_of_monotone grows
    (fun more => grammar.card_holders_le symbol (start + more))
    (fun more same => congrArg Finset.card (keeps more same).succ.holders_eq)
    (Nat.le_succ grammar.rules.length)
  exact keeps _ settled.symm

/-- Which names vanish is known after as many passes as there are rules. -/
theorem keeps_epsilon (grammar : Grammar) : grammar.Keeps .epsilon grammar.rules.length := by
  have settled : grammar.Keeps .epsilon (0 + grammar.rules.length) :=
    keeps_of_settling 0 fun count _ same => keeps_of_holders_eq same same
  rwa [Nat.zero_add] at settled

/-- The sets that hold a symbol are known after as many passes again. -/
theorem keeps_symbol (grammar : Grammar) (symbol : Symbol) :
    grammar.Keeps symbol (2 * grammar.rules.length) := by
  rw [Nat.two_mul]
  exact keeps_of_settling grammar.rules.length fun count later same =>
    keeps_of_holders_eq (grammar.keeps_epsilon.of_le later).holders_eq same

/-- A pass behind twice as many passes as there are rules adds nothing. -/
theorem firstPass_afterPasses (grammar : Grammar) :
    grammar.firstPass (grammar.afterPasses (2 * grammar.rules.length)) =
      grammar.afterPasses (2 * grammar.rules.length) := by
  have uniform := grammar.uniform_afterPasses (2 * grammar.rules.length)
  refine (uniform.eq_of_le (uniform.firstPass grammar) (grammar.le_firstPass _) ?_).symm
  intro name symbol inside
  rw [← afterPasses_succ] at inside
  exact ((grammar.keeps_symbol symbol).holders name).mpr inside

/--
The passes stop, and few are made: all but the last one add something, and with the last one, which
adds nothing, there are at most twice as many as rules and one more.
-/
theorem firstPasses_le (grammar : Grammar) :
    grammar.firstPasses ≤ 2 * grammar.rules.length + 1 ∧
      ∃ count, grammar.firstPasses = count + 1 ∧
        grammar.firstSets.family = grammar.afterPasses count ∧
        grammar.firstPass (grammar.afterPasses count) = grammar.afterPasses count ∧
        ∀ earlier < count,
          grammar.firstPass (grammar.afterPasses earlier) ≠ grammar.afterPasses earlier := by
  obtain ⟨count, isLimit, changes⟩ := grammar.exists_firstLimit_eq (.ofNames grammar.nonterminals)
  have isSets : grammar.firstComputation.1 = grammar.afterPasses count := congrArg Prod.fst isLimit
  have isCount : grammar.firstPasses = count + 1 := congrArg Prod.snd isLimit
  have few : count ≤ 2 * grammar.rules.length :=
    Nat.le_of_not_lt fun more => changes _ more grammar.firstPass_afterPasses
  refine ⟨isCount ▸ Nat.succ_le_succ few, count, isCount, isSets, ?_, changes⟩
  rw [← isSets]
  exact firstPass_firstLimit grammar _

-- The bound is reached: `S` vanishes in the first pass, and only then is `a` found behind it.
example : (ofRules {} [⟨"S", [⟨[.nonterminal "S", .terminal "a"]⟩, ⟨[]⟩]⟩]).firstPasses = 3 := by
  decide +kernel

end Grammar

end Lookahead
