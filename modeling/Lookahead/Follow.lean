import Lookahead.First

/-!
# FOLLOW sets

The input symbols that can stand right after a nonterminal.  What follows it
inside a body is put into its set once; where the rest of a body can vanish,
an edge leads from the nonterminal of the rule to the one in the body, and a
worklist carries the sets along the edges until nothing is left to carry.
-/

namespace Lookahead

/-- An edge says that the set of its target includes the set of its source. -/
structure FollowEdge where
  source : Name
  target : Name
  deriving DecidableEq, Inhabited

namespace SetFamily

/--
Carry `symbols` to the targets.  A target that lacks some of them receives them and is put at
the end of the queue, unless it waits there already.
-/
def carry (symbols : SymbolSet) : List Name → SetFamily × List Name → SetFamily × List Name
  | [], work => work
  | target :: rest, (family, queue) =>
      match family.get? target with
      | none => carry symbols rest (family, queue)
      | some set =>
          if symbols ⊆ set then carry symbols rest (family, queue)
          else carry symbols rest
            (family.extend target symbols, if target ∈ queue then queue else queue ++ [target])

def room (family : SetFamily) : Nat :=
  family.entries.length * family.members.size - family.total

theorem total_lt_extend (family : SetFamily) (name : Name) (set symbols : SymbolSet)
    (found : family.get? name = some set) (lacks : ¬ symbols ⊆ set) :
    family.total < (family.extend name symbols).total := by
  have le := family.le_extend name symbols
  rcases Nat.lt_or_ge family.total (family.extend name symbols).total with less | notLess
  · exact less
  · exfalso
    have same := eq_of_le_of_total_le le notLess
    have extended := family.get?_extend name name symbols
    rw [← same, found] at extended
    simp only [if_true, Option.map_some, Option.some.injEq] at extended
    exact lacks fun symbol inside =>
      extended ▸ (SortedSet.mem_union _ _ symbol).mpr (.inr inside)

theorem members_extend (family : SetFamily) (name : Name) (symbols : SymbolSet)
    (known : symbols ⊆ family.members) : (family.extend name symbols).members = family.members := by
  apply SortedSet.ext
  intro symbol
  constructor
  · intro inside
    rcases members_extend_subset family name symbols symbol inside with old | new
    · exact old
    · exact known symbol new
  · exact EntriesLe.members_subset (family.le_extend name symbols) symbol

theorem room_extend_lt (family : SetFamily) (name : Name) (set symbols : SymbolSet)
    (found : family.get? name = some set) (lacks : ¬ symbols ⊆ set)
    (known : symbols ⊆ family.members) :
    (family.extend name symbols).room < family.room := by
  have grown := total_lt_extend family name set symbols found lacks
  have bounded := (family.extend name symbols).total_le_of_within _
    (family.extend name symbols).within_members
  have sameLength := EntriesLe.length_eq (family.le_extend name symbols)
  unfold room
  rw [members_extend family name symbols known, ← sameLength] at bounded ⊢
  omega

/-- A name is queued only when its set grows. -/
theorem carry_room_add_length_le (symbols : SymbolSet) (targets : List Name)
    (work : SetFamily × List Name) (known : symbols ⊆ work.1.members) :
    (carry symbols targets work).1.room + (carry symbols targets work).2.length ≤
      work.1.room + work.2.length := by
  fun_induction carry symbols targets work with
  | case1 work => exact Nat.le_refl _
  | case2 _ _ _ _ _ ih => exact ih known
  | case3 _ _ _ _ _ _ _ ih => exact ih known
  | case4 target rest family queue set found lacks ih =>
      have less := room_extend_lt family target set symbols found lacks known
      have step := ih ((members_extend family target symbols known).symm ▸ known)
      have queued : (if target ∈ queue then queue else queue ++ [target]).length ≤
          queue.length + 1 := by
        split
        · omega
        · exact Nat.le_of_eq List.length_append
      refine Nat.le_trans step ?_
      show (family.extend target symbols).room +
        (if target ∈ queue then queue else queue ++ [target]).length ≤ family.room + queue.length
      omega

theorem get_subset_members (family : SetFamily) (name : Name) :
    family.get name ⊆ family.members := by
  unfold get
  cases found : family.get? name with
  | none => exact fun symbol inside => absurd inside (SortedSet.not_mem_empty symbol)
  | some set => exact family.get?_subset_members name set found

def targets (edges : List FollowEdge) (name : Name) : List Name :=
  (edges.filter fun edge => decide (edge.source = name)).map FollowEdge.target

/-- Carry sets along the edges, from the names in the queue on, until the queue is empty. -/
def propagate (edges : List FollowEdge) (family : SetFamily) : List Name → SetFamily
  | [] => family
  | name :: rest =>
      let work := carry (family.get name) (targets edges name) (family, rest)
      propagate edges work.1 work.2
termination_by queue => family.room + queue.length
decreasing_by
  have step := carry_room_add_length_le (family.get name) (targets edges name) (family, rest)
    (get_subset_members family name)
  simp only [List.length_cons] at step ⊢
  omega

end SetFamily

def occurrences : List Symbol → List (Name × List Symbol)
  | [] => []
  | .nonterminal name :: tail => (name, tail) :: occurrences tail
  | _ :: tail => occurrences tail

structure Occurrence where
  lhs : Name
  name : Name
  tail : List Symbol
  deriving DecidableEq, Inhabited

structure FollowSets where
  family : SetFamily
  deriving DecidableEq, Inhabited

namespace FollowSets

def get? (sets : FollowSets) (name : Name) : Option SymbolSet := sets.family.get? name

def get (sets : FollowSets) (name : Name) : SymbolSet := sets.family.get name

end FollowSets

namespace Grammar

def occurrences (grammar : Grammar) : List Occurrence :=
  grammar.indexedProductions.flatMap fun (lhs, _, production) =>
    (Lookahead.occurrences production.body).map fun (name, tail) => ⟨lhs, name, tail⟩

/-- The names with a FOLLOW set: the start, the left-hand sides and the nonterminals in bodies. -/
def followNames (grammar : Grammar) : SortedSet Name :=
  .ofList (grammar.start :: grammar.nonterminals ++
    grammar.bodySymbols.filterMap Symbol.nonterminal?)

/-- What stands right after nonterminals in bodies, and the end marker after the start. -/
def followSeeds (grammar : Grammar) (first : FirstSets) : SetFamily :=
  grammar.occurrences.foldl
    (fun family occurrence => family.extend occurrence.name
      ((first.ofSequence occurrence.tail).filter fun symbol => decide (symbol ≠ .epsilon)))
    ((SetFamily.ofNames grammar.followNames.toList).extend grammar.start (.singleton .endMarker))

/-- The inclusions between FOLLOW sets, without those of a set in itself. -/
def followEdges (grammar : Grammar) (first : FirstSets) : List FollowEdge :=
  (grammar.occurrences.filter fun occurrence =>
      decide (occurrence.name ≠ occurrence.lhs) &&
        decide (.epsilon ∈ first.ofSequence occurrence.tail)).map
    fun occurrence => ⟨occurrence.lhs, occurrence.name⟩

def followSetsFrom (grammar : Grammar) (first : FirstSets) (queue : List Name) : FollowSets :=
  ⟨(grammar.followSeeds first).propagate (grammar.followEdges first) queue⟩

/-- FOLLOW by FIRST sets, which may be those of another grammar. -/
def followSets (grammar : Grammar) (first : FirstSets) : FollowSets :=
  grammar.followSetsFrom first grammar.followNames.toList

end Grammar

end Lookahead
