import Lookahead.Grammar.Basic
import Lookahead.SetFamily

/-!
# FIRST sets

The input symbols with which the words of a symbol sequence can begin, and the
empty-word symbol when the empty word is one of them.  Passes over all
productions, each using what the ones before it found, go on until one of them
adds nothing.
-/

namespace Lookahead

/-- FIRST of a sequence, from the sets of the nonterminals; one without a set derives nothing. -/
def SetFamily.firstOf (family : SetFamily) : List Symbol → SymbolSet
  | [] => .singleton .epsilon
  | .epsilon :: rest => family.firstOf rest
  | .nonterminal name :: rest =>
      match family.get? name with
      | none => ∅
      | some first =>
          if .epsilon ∈ first then
            first.filter (fun symbol => decide (symbol ≠ .epsilon)) ∪ family.firstOf rest
          else first
  | .terminal name :: _ => .singleton (.terminal name)
  | .endMarker :: _ => .singleton .endMarker

theorem SetFamily.firstOf_subset (family : SetFamily) (symbols : List Symbol) (symbol : Symbol)
    (inside : symbol ∈ family.firstOf symbols) :
    symbol = .epsilon ∨ symbol ∈ symbols ∨ symbol ∈ family.members := by
  fun_induction SetFamily.firstOf family symbols with
  | case1 => exact .inl ((SortedSet.mem_singleton _ _).mp inside)
  | case2 rest ih =>
      rcases ih inside with same | later | member
      · exact .inl same
      · exact .inr (.inl (List.mem_cons_of_mem _ later))
      · exact .inr (.inr member)
  | case3 => exact absurd inside (SortedSet.not_mem_empty _)
  | case4 name rest first found _ ih =>
      rcases (SortedSet.mem_union _ _ _).mp inside with head | tail
      · exact .inr (.inr (family.get?_subset_members name first found symbol
          ((SortedSet.mem_filter _ _ _).mp head).1))
      · rcases ih tail with same | later | member
        · exact .inl same
        · exact .inr (.inl (List.mem_cons_of_mem _ later))
        · exact .inr (.inr member)
  | case5 name rest first found =>
      exact .inr (.inr (family.get?_subset_members name first found symbol inside))
  | case6 name rest =>
      exact .inr (.inl (by simp [(SortedSet.mem_singleton _ _).mp inside]))
  | case7 rest =>
      exact .inr (.inl (by simp [(SortedSet.mem_singleton _ _).mp inside]))

namespace Grammar

def firstStep (family : SetFamily) (production : Name × Nat × Production) : SetFamily :=
  family.extend production.1 (family.firstOf production.2.2.body)

def firstPass (grammar : Grammar) (family : SetFamily) : SetFamily :=
  grammar.indexedProductions.foldl firstStep family

/-- The symbols that can be in the sets when the passes go on from `family`. -/
def firstBound (grammar : Grammar) (family : SetFamily) : SymbolSet :=
  (SortedSet.ofList grammar.bodySymbols).insert .epsilon ∪ family.members

theorem body_subset_bodySymbols (grammar : Grammar) (production : Name × Nat × Production)
    (found : production ∈ grammar.indexedProductions) (symbol : Symbol)
    (inside : symbol ∈ production.2.2.body) : symbol ∈ grammar.bodySymbols := by
  simp only [indexedProductions, List.mem_flatMap, List.mem_map] at found
  obtain ⟨rule, ruleFound, ⟨body, index⟩, bodyFound, same⟩ := found
  subst same
  simp only [bodySymbols, List.mem_flatMap]
  exact ⟨rule, ruleFound, body, List.fst_mem_of_mem_zipIdx bodyFound, inside⟩

theorem le_foldl_firstStep (family : SetFamily)
    (productions : List (Name × Nat × Production)) :
    family ≤ productions.foldl firstStep family := by
  induction productions generalizing family with
  | nil => exact SetFamily.le_refl family
  | cons production rest ih =>
      exact SetFamily.le_trans (family.le_extend _ _) (ih (firstStep family production))

theorem le_firstPass (grammar : Grammar) (family : SetFamily) :
    family ≤ grammar.firstPass family := le_foldl_firstStep family _

theorem firstBound_foldl_subset (grammar : Grammar) (family : SetFamily)
    (productions : List (Name × Nat × Production))
    (known : ∀ production ∈ productions, production ∈ grammar.indexedProductions) :
    grammar.firstBound (productions.foldl firstStep family) ⊆ grammar.firstBound family := by
  induction productions generalizing family with
  | nil => exact fun _ inside => inside
  | cons production rest ih =>
      intro symbol inside
      have step := ih (firstStep family production)
        (fun other found => known other (by simp [found])) symbol inside
      simp only [firstBound, SortedSet.mem_union, SortedSet.mem_insert,
        SortedSet.mem_ofList] at step ⊢
      rcases step with fixed | member
      · exact .inl fixed
      · rcases family.members_extend_subset _ _ symbol member with old | new
        · exact .inr old
        · rcases family.firstOf_subset _ symbol new with same | body | old
          · exact .inl (.inl same)
          · exact .inl (.inr (grammar.body_subset_bodySymbols production
              (known production (by simp)) symbol body))
          · exact .inr old

theorem firstBound_firstPass (grammar : Grammar) (family : SetFamily) :
    grammar.firstBound (grammar.firstPass family) = grammar.firstBound family := by
  apply SortedSet.ext
  intro symbol
  constructor
  · exact grammar.firstBound_foldl_subset family _ (fun _ found => found) symbol
  · intro inside
    simp only [firstBound, SortedSet.mem_union] at inside ⊢
    rcases inside with fixed | member
    · exact .inl fixed
    · exact .inr (SetFamily.EntriesLe.members_subset (grammar.le_firstPass family) symbol member)

/-- How many memberships the passes can still add at most. -/
def firstRoom (grammar : Grammar) (family : SetFamily) : Nat :=
  family.entries.length * (grammar.firstBound family).size - family.total

theorem firstRoom_firstPass_lt (grammar : Grammar) (family : SetFamily)
    (grew : grammar.firstPass family ≠ family) :
    grammar.firstRoom (grammar.firstPass family) < grammar.firstRoom family := by
  have le := grammar.le_firstPass family
  have larger : family.total < (grammar.firstPass family).total := by
    rcases Nat.lt_or_ge family.total (grammar.firstPass family).total with less | notLess
    · exact less
    · exact absurd (SetFamily.eq_of_le_of_total_le le notLess).symm grew
  have bounded := (grammar.firstPass family).total_le_of_within
    (grammar.firstBound (grammar.firstPass family)) fun entry found symbol inside =>
      (SortedSet.mem_union _ _ symbol).mpr
        (.inr ((grammar.firstPass family).within_members entry found symbol inside))
  have sameLength := SetFamily.EntriesLe.length_eq le
  unfold firstRoom
  rw [grammar.firstBound_firstPass, ← sameLength] at bounded ⊢
  omega

/-- Repeat the passes until one adds nothing; the sets, and the passes made with that last one. -/
def firstLimit (grammar : Grammar) (family : SetFamily) : SetFamily × Nat :=
  if grammar.firstPass family = family then (family, 1)
  else
    let (limit, passes) := grammar.firstLimit (grammar.firstPass family)
    (limit, passes + 1)
termination_by grammar.firstRoom family
decreasing_by
  rename_i grew
  exact grammar.firstRoom_firstPass_lt family grew

/-- The FIRST sets of the nonterminals, and the number of passes that find them. -/
def firstComputation (grammar : Grammar) : SetFamily × Nat :=
  grammar.firstLimit (.ofNames grammar.nonterminals)

end Grammar

structure FirstSets where
  terminals : SortedSet Name
  family : SetFamily
  deriving DecidableEq, Inhabited

namespace FirstSets

def get? (sets : FirstSets) : Symbol → Option SymbolSet
  | .terminal name =>
      if name ∈ sets.terminals then some (.singleton (.terminal name)) else none
  | .nonterminal name => sets.family.get? name
  | .epsilon => some (.singleton .epsilon)
  | .endMarker => some (.singleton .endMarker)

def listing (sets : FirstSets) : List (Symbol × SymbolSet) :=
  sets.terminals.toList.map (fun name => (.terminal name, .singleton (.terminal name))) ++
    sets.family.listing.map (fun (name, set) => (.nonterminal name, set)) ++
    [(.epsilon, .singleton .epsilon), (.endMarker, .singleton .endMarker)]

def ofSequence (sets : FirstSets) (symbols : List Symbol) : SymbolSet :=
  sets.family.firstOf symbols

end FirstSets

namespace Grammar

def firstSets (grammar : Grammar) : FirstSets := ⟨grammar.terminals, grammar.firstComputation.1⟩

def firstPasses (grammar : Grammar) : Nat := grammar.firstComputation.2

end Grammar

end Lookahead
