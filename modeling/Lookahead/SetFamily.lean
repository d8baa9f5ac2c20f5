import Lookahead.Symbol

/-!
# Families of symbol sets

A finite family of symbol sets named by nonterminals.  Sets only grow, and the
names are fixed when the family is made.
-/

namespace Lookahead

/-- Symbol sets by name; the first entry of a name is its set. -/
structure SetFamily where
  entries : List (Name × SymbolSet)
  deriving DecidableEq, Inhabited

namespace SetFamily

def ofNames (names : List Name) : SetFamily := ⟨names.map fun name => (name, ∅)⟩

def get? (family : SetFamily) (name : Name) : Option SymbolSet :=
  (family.entries.find? fun entry => decide (entry.1 = name)).map Prod.snd

def get (family : SetFamily) (name : Name) : SymbolSet := (family.get? name).getD ∅

def listing (family : SetFamily) : List (Name × SymbolSet) :=
  (SortedSet.ofList (family.entries.map Prod.fst)).toList.map fun name => (name, family.get name)

/-- Add symbols to the set of a name; a name without a set is left without one. -/
def extend (family : SetFamily) (name : Name) (symbols : SymbolSet) : SetFamily :=
  ⟨family.entries.map fun entry =>
    if entry.1 = name then (entry.1, entry.2 ∪ symbols) else entry⟩

theorem get?_extend (family : SetFamily) (name other : Name) (symbols : SymbolSet) :
    (family.extend name symbols).get? other =
      if other = name then (family.get? other).map (· ∪ symbols) else family.get? other := by
  obtain ⟨entries⟩ := family
  simp only [get?, extend]
  induction entries with
  | nil => simp
  | cons head rest ih =>
      simp only [List.map_cons, List.find?_cons]
      by_cases isName : head.1 = name
      · by_cases isOther : head.1 = other
        · simp [isOther, ← isName]
        · have different : other ≠ name := fun same => isOther (isName.trans same.symm)
          simp only [isName, if_true] at ih ⊢
          have notOther : decide (name = other) = false := by simpa using fun same => different same.symm
          simp only [notOther]
          exact ih
      · by_cases isOther : head.1 = other
        · have different : other ≠ name := fun same => isName (isOther.trans same)
          simp [isOther, different]
        · simp only [isName, if_false, isOther, decide_false]
          exact ih

def total (family : SetFamily) : Nat :=
  (family.entries.flatMap fun entry => entry.2.toList).length

theorem total_cons (entry : Name × SymbolSet) (entries : List (Name × SymbolSet)) :
    (mk (entry :: entries)).total = entry.2.size + (mk entries).total := by
  rw [total, List.flatMap_cons, List.length_append, total, SortedSet.size]

def members (family : SetFamily) : SymbolSet :=
  .ofList (family.entries.flatMap fun entry => entry.2.toList)

theorem mem_members (family : SetFamily) (symbol : Symbol) :
    symbol ∈ family.members ↔ ∃ entry ∈ family.entries, symbol ∈ entry.2 := by
  simp only [members, SortedSet.mem_ofList, List.mem_flatMap]
  rfl

def Within (family : SetFamily) (bound : SymbolSet) : Prop :=
  ∀ entry ∈ family.entries, entry.2 ⊆ bound

theorem within_members (family : SetFamily) : family.Within family.members :=
  fun entry found symbol inside => (family.mem_members symbol).mpr ⟨entry, found, inside⟩

theorem total_le_of_within (family : SetFamily) (bound : SymbolSet)
    (within : family.Within bound) : family.total ≤ family.entries.length * bound.size := by
  obtain ⟨entries⟩ := family
  induction entries with
  | nil => simp [total]
  | cons head rest ih =>
      have headSize := SortedSet.size_le_of_subset (within head (by simp))
      have restTotal := ih fun entry found => within entry (by simp [found])
      simp only [total_cons, List.length_cons, Nat.succ_mul] at restTotal ⊢
      omega

/-- Entry by entry, the names agree and the first set lies within the second. -/
inductive EntriesLe : List (Name × SymbolSet) → List (Name × SymbolSet) → Prop where
  | nil : EntriesLe [] []
  | cons {name : Name} {first second : SymbolSet} {rest others : List (Name × SymbolSet)}
      (head : first ⊆ second) (tail : EntriesLe rest others) :
      EntriesLe ((name, first) :: rest) ((name, second) :: others)

namespace EntriesLe

theorem refl (entries : List (Name × SymbolSet)) : EntriesLe entries entries := by
  induction entries with
  | nil => exact .nil
  | cons head rest ih => exact .cons (fun _ inside => inside) ih

theorem trans {first second third : List (Name × SymbolSet)} (lower : EntriesLe first second)
    (upper : EntriesLe second third) : EntriesLe first third := by
  induction lower generalizing third with
  | nil => exact upper
  | cons head _ ih =>
      cases upper with
      | cons next tail => exact .cons (fun symbol inside => next symbol (head symbol inside)) (ih tail)

theorem length_eq {first second : List (Name × SymbolSet)} (le : EntriesLe first second) :
    first.length = second.length := by
  induction le with
  | nil => rfl
  | cons _ _ ih => simp [ih]

theorem total_le {first second : List (Name × SymbolSet)} (le : EntriesLe first second) :
    (SetFamily.mk first).total ≤ (SetFamily.mk second).total := by
  induction le with
  | nil => exact Nat.le_refl _
  | cons head _ ih =>
      have headSize := SortedSet.size_le_of_subset head
      simp only [total_cons]
      omega

theorem eq_of_total_le {first second : List (Name × SymbolSet)} (le : EntriesLe first second)
    (total_le : (SetFamily.mk second).total ≤ (SetFamily.mk first).total) : first = second := by
  induction le with
  | nil => rfl
  | cons head tail ih =>
      have headSize := SortedSet.size_le_of_subset head
      have tailTotal := tail.total_le
      simp only [total_cons] at total_le
      have sameHead := SortedSet.eq_of_subset_of_size_le head (by omega)
      have sameTail := ih (by omega)
      rw [sameHead, sameTail]

theorem members_subset {first second : List (Name × SymbolSet)} (le : EntriesLe first second) :
    (SetFamily.mk first).members ⊆ (SetFamily.mk second).members := by
  intro symbol inside
  rw [mem_members] at inside ⊢
  induction le with
  | nil => exact inside
  | @cons name _ small _ _ head _ ih =>
      obtain ⟨entry, found, member⟩ := inside
      rcases List.mem_cons.mp found with here | later
      · subst here
        exact ⟨(name, small), by simp, head symbol member⟩
      · obtain ⟨above, aboveFound, aboveMember⟩ := ih ⟨entry, later, member⟩
        exact ⟨above, by simp [aboveFound], aboveMember⟩

end EntriesLe

instance : LE SetFamily := ⟨fun first second => EntriesLe first.entries second.entries⟩

theorem le_refl (family : SetFamily) : family ≤ family := EntriesLe.refl family.entries

theorem le_trans {first second third : SetFamily} (lower : first ≤ second)
    (upper : second ≤ third) : first ≤ third := EntriesLe.trans lower upper

theorem eq_of_le_of_total_le {first second : SetFamily} (le : first ≤ second)
    (total_le : second.total ≤ first.total) : first = second :=
  congrArg SetFamily.mk (EntriesLe.eq_of_total_le le total_le)

theorem le_extend (family : SetFamily) (name : Name) (symbols : SymbolSet) :
    family ≤ family.extend name symbols := by
  obtain ⟨entries⟩ := family
  show EntriesLe entries _
  simp only [extend]
  induction entries with
  | nil => exact .nil
  | cons head rest ih =>
      rw [List.map_cons]
      split
      · exact .cons (fun symbol inside => (SortedSet.mem_union _ _ symbol).mpr (.inl inside)) ih
      · exact .cons (fun _ inside => inside) ih

theorem members_extend_subset (family : SetFamily) (name : Name) (symbols : SymbolSet)
    (symbol : Symbol) (inside : symbol ∈ (family.extend name symbols).members) :
    symbol ∈ family.members ∨ symbol ∈ symbols := by
  rw [mem_members] at inside
  obtain ⟨entry, found, member⟩ := inside
  obtain ⟨source, sourceFound, same⟩ := List.mem_map.mp found
  split at same
  · subst same
    rcases (SortedSet.mem_union _ _ symbol).mp member with old | new
    · exact .inl ((family.mem_members symbol).mpr ⟨source, sourceFound, old⟩)
    · exact .inr new
  · subst same
    exact .inl ((family.mem_members symbol).mpr ⟨source, sourceFound, member⟩)

theorem get?_subset_members (family : SetFamily) (name : Name) (set : SymbolSet)
    (found : family.get? name = some set) : set ⊆ family.members := by
  intro symbol inside
  obtain ⟨entry, entryFound, same⟩ := Option.map_eq_some_iff.mp found
  exact (family.mem_members symbol).mpr
    ⟨entry, List.mem_of_find?_eq_some entryFound, same ▸ inside⟩

end SetFamily

end Lookahead
