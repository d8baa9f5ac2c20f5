import Lookahead.Proofs.LL1.Deciding
import Lookahead.Proofs.Sets.FirstExact
import Lookahead.Proofs.Sets.FollowExact

/-!
# Grammars that agree on some names

Where two grammars have the same alternatives for some names, and no other names
stand in these, sequences of such names derive the same in both.  They have the
same FIRST sets then, and where FOLLOW is the same too, the same symbols open the
alternatives.
-/

namespace Lookahead.Grammar

def Within (names : Name → Prop) (symbols : List Symbol) : Prop :=
  ∀ name, .nonterminal name ∈ symbols → names name

section Within

variable {names : Name → Prop} {first second : List Symbol}

theorem within_append : Within names (first ++ second) ↔ Within names first ∧ Within names second := by
  simp only [Within, List.mem_append]
  constructor
  · intro both
    exact ⟨fun name inside => both name (.inl inside), fun name inside => both name (.inr inside)⟩
  · rintro ⟨one, other⟩ name (inside | inside)
    · exact one name inside
    · exact other name inside

theorem within_singleton {name : Name} : Within names [.nonterminal name] ↔ names name := by
  simp [Within]

end Within

/-- The same alternatives for some names, with only such names in them. -/
structure AgreeOn (names : Name → Prop) (first second : Grammar) : Prop where
  productions : ∀ name, names name → first.productions name = second.productions name
  closed : ∀ name index production, names name →
    first.production? name index = some production → Within names production.body

namespace AgreeOn

variable {names : Name → Prop} {first second : Grammar} {symbols last : List Symbol} {name : Name}

theorem production?_eq (agree : AgreeOn names first second) (inside : names name) (index : Nat) :
    first.production? name index = second.production? name index := by
  rw [production?, production?, agree.productions name inside]

theorem symm (agree : AgreeOn names first second) : AgreeOn names second first where
  productions := fun name inside => (agree.productions name inside).symm
  closed := by
    intro name index production inside found
    rw [← agree.production?_eq inside] at found
    exact agree.closed name index production inside found

/-- Both grammars derive the same from the names on which they agree, and nothing with other names. -/
theorem derives (agree : AgreeOn names first second) (within : Within names symbols)
    (chain : first.Derives symbols last) : second.Derives symbols last ∧ Within names last := by
  induction chain with
  | refl => exact ⟨.refl _, within⟩
  | step _ next ih =>
      obtain ⟨middleChain, middleWithin⟩ := ih
      cases next with
      | @expand name index production before after found =>
          obtain ⟨beforeWithin, restWithin⟩ := within_append.mp middleWithin
          have inside : names name := restWithin name List.mem_cons_self
          have afterWithin : Within names after := fun other later =>
            restWithin other (List.mem_cons_of_mem _ later)
          have bodyWithin := agree.closed name index production inside found
          rw [agree.production?_eq inside] at found
          exact ⟨middleChain.step (.expand before after found),
            within_append.mpr ⟨beforeWithin, within_append.mpr ⟨bodyWithin, afterWithin⟩⟩⟩

theorem derives_iff (agree : AgreeOn names first second) (within : Within names symbols) :
    first.Derives symbols last ↔ second.Derives symbols last :=
  ⟨fun chain => (agree.derives within chain).1, fun chain => (agree.symm.derives within chain).1⟩

section WellFormed

variable (agree : AgreeOn names first second) (firstFormed : first.WellFormed)
  (secondFormed : second.WellFormed)
include agree firstFormed secondFormed

theorem ofSequence_eq (within : Within names symbols) :
    first.firstSets.ofSequence symbols = second.firstSets.ofSequence symbols := by
  have solid : Within names (Production.ofSymbols symbols).body := fun name inside =>
    within name ((Production.mem_ofSymbols symbols _).mp inside).1
  have one := isFirst_ofSequence firstFormed symbols
  have other := isFirst_ofSequence secondFormed symbols
  apply SortedSet.ext
  intro symbol
  exact ⟨one.subset (fun _ chain => (agree.derives solid chain).1) other symbol,
    other.subset (fun _ chain => (agree.symm.derives solid chain).1) one symbol⟩

theorem opens_iff (within : Within names symbols)
    (sameFollow : first.follow.get name = second.follow.get name) (symbol : Symbol) :
    first.firstSets.Opens (· ∈ first.follow.get name) symbols symbol ↔
      second.firstSets.Opens (· ∈ second.follow.get name) symbols symbol := by
  rw [FirstSets.Opens, FirstSets.Opens, agree.ofSequence_eq firstFormed secondFormed within, sameFollow]

end WellFormed

end AgreeOn

/-- No symbol can open two alternatives of a name. -/
def OpensApart (grammar : Grammar) (name : Name) : Prop :=
  ∀ lookahead index other one another, grammar.production? name index = some one →
    grammar.production? name other = some another →
    grammar.firstSets.Opens (· ∈ grammar.follow.get name) one.body lookahead →
    grammar.firstSets.Opens (· ∈ grammar.follow.get name) another.body lookahead → index = other

theorem isLL1_iff {grammar : Grammar} (wellFormed : grammar.WellFormed) :
    grammar.analysis.isLL1 = true ↔ ∀ name, grammar.OpensApart name :=
  LL1.Table.isOk_build_iff wellFormed.nonterminals_nodup

theorem OpensApart.of_not_mem {grammar : Grammar} {name : Name}
    (unknown : name ∉ grammar.nonterminals) : grammar.OpensApart name :=
  fun _ _ _ _ _ found => absurd (mem_nonterminals_of_production? found) unknown

namespace AgreeOn

variable {names : Name → Prop} {first second : Grammar} {name : Name}

theorem opensApart (agree : AgreeOn names first second) (firstFormed : first.WellFormed)
    (secondFormed : second.WellFormed) (inside : names name)
    (sameFollow : first.follow.get name = second.follow.get name)
    (apart : first.OpensApart name) : second.OpensApart name := by
  intro lookahead index other one another found otherFound opens otherOpens
  have within := agree.symm.closed name index one inside found
  have otherWithin := agree.symm.closed name other another inside otherFound
  rw [← agree.production?_eq inside] at found otherFound
  rw [← agree.opens_iff firstFormed secondFormed within sameFollow] at opens
  rw [← agree.opens_iff firstFormed secondFormed otherWithin sameFollow] at otherOpens
  exact apart lookahead index other one another found otherFound opens otherOpens

/--
Where two grammars agree on some names and on what follows these, and the second tells the
alternatives of all others apart, the first has a predictive table exactly when the second has one and
the first tells the alternatives of all others apart too.
-/
theorem isLL1_iff (agree : AgreeOn names first second) (firstFormed : first.WellFormed)
    (secondFormed : second.WellFormed)
    (sameFollow : ∀ name, names name → first.follow.get name = second.follow.get name)
    (outside : ∀ name, ¬ names name → second.OpensApart name) :
    first.analysis.isLL1 = true ↔
      second.analysis.isLL1 = true ∧ ∀ name, ¬ names name → first.OpensApart name := by
  rw [Grammar.isLL1_iff firstFormed, Grammar.isLL1_iff secondFormed]
  constructor
  · intro apart
    refine ⟨fun name => ?_, fun name _ => apart name⟩
    by_cases inside : names name
    · exact agree.opensApart firstFormed secondFormed inside (sameFollow name inside) (apart name)
    · exact outside name inside
  · rintro ⟨apart, others⟩ name
    by_cases inside : names name
    · exact agree.symm.opensApart secondFormed firstFormed inside (sameFollow name inside).symm
        (apart name)
    · exact others name inside

end AgreeOn

end Lookahead.Grammar
