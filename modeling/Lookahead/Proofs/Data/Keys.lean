/-!
# Looking up by key

In a list without repeated keys each entry is the one that is found by its key.  Where keys
may be repeated, the first entry with a key is found.
-/

namespace Lookahead

variable {α κ : Type} [DecidableEq κ]

def findKey? (key : α → κ) (entries : List α) (wanted : κ) : Option α :=
  entries.find? fun entry => decide (key entry = wanted)

theorem mem_of_findKey? {key : α → κ} {entries : List α} {wanted : κ} {entry : α}
    (found : findKey? key entries wanted = some entry) : entry ∈ entries ∧ key entry = wanted := by
  have same := List.find?_some found
  exact ⟨List.mem_of_find?_eq_some found, of_decide_eq_true same⟩

theorem findKey?_of_mem {key : α → κ} {entries : List α} (nodup : (entries.map key).Nodup)
    {entry : α} (inside : entry ∈ entries) :
    findKey? key entries (key entry) = some entry := by
  unfold findKey?
  induction entries with
  | nil => exact absurd inside List.not_mem_nil
  | cons head rest ih =>
      obtain ⟨headFresh, restNodup⟩ := List.nodup_cons.mp nodup
      rw [List.find?_cons]
      rcases List.mem_cons.mp inside with here | later
      · simp [here]
      · have different : ¬ key head = key entry := fun same =>
          headFresh (same ▸ List.mem_map.mpr ⟨entry, later, rfl⟩)
        simp only [different, decide_false]
        exact ih restNodup later

theorem findKey?_eq_none_iff {key : α → κ} {entries : List α} {wanted : κ} :
    findKey? key entries wanted = none ↔ ∀ entry ∈ entries, key entry ≠ wanted := by
  simp [findKey?]

/-- Among pairs in which a key has one value, the value that is found is the one that is there. -/
theorem find?_map_snd_eq_some_iff {β : Type} {entries : List (κ × β)} {wanted : κ} {value : β}
    (sole : ∀ one other, (wanted, one) ∈ entries → (wanted, other) ∈ entries → one = other) :
    (entries.find? fun entry => decide (entry.1 = wanted)).map Prod.snd = some value ↔
      (wanted, value) ∈ entries := by
  constructor
  · intro found
    obtain ⟨⟨key, place⟩, first, isValue⟩ := Option.map_eq_some_iff.mp found
    have byKey : findKey? Prod.fst entries wanted = some (key, place) := first
    obtain ⟨inside, isKey⟩ := mem_of_findKey? byKey
    subst isKey isValue
    exact inside
  · intro inside
    cases found : findKey? Prod.fst entries wanted with
    | none => exact absurd rfl (findKey?_eq_none_iff.mp found _ inside)
    | some entry =>
        obtain ⟨listed, isKey⟩ := mem_of_findKey? found
        subst isKey
        have first : entries.find? (fun other => decide (other.1 = entry.1)) = some entry := found
        rw [first, Option.map_some, sole entry.2 value listed inside]

/-- Values come with ascending places. -/
theorem pairwise_zipIdx (values : List α) (start : Nat) :
    (values.zipIdx start).Pairwise fun one other => one.2 < other.2 := by
  refine List.pairwise_map.mp ?_
  rw [List.zipIdx_map_snd]
  exact List.pairwise_lt_range' 1

section Entries

variable {key : κ} {value : α}

def firstAt? (entries : List (κ × α)) (key : κ) : Option α :=
  (findKey? Prod.fst entries key).map Prod.snd

theorem firstAt?_cons (head : κ × α) (rest : List (κ × α)) (key : κ) :
    firstAt? (head :: rest) key = if head.1 = key then some head.2 else firstAt? rest key := by
  unfold firstAt? findKey?
  rw [List.find?_cons]
  by_cases same : head.1 = key
  · simp only [same, decide_true, Option.map_some, if_true]
  · simp only [same, decide_false, if_false]

theorem firstAt?_append (front back : List (κ × α)) (key : κ) :
    firstAt? (front ++ back) key = (firstAt? front key).or (firstAt? back key) := by
  simp only [firstAt?, findKey?, List.find?_append, Option.map_or]

theorem mem_of_firstAt? {entries : List (κ × α)} (found : firstAt? entries key = some value) :
    (key, value) ∈ entries := by
  obtain ⟨⟨_, _⟩, first, rfl⟩ := Option.map_eq_some_iff.mp found
  obtain ⟨inside, rfl⟩ := mem_of_findKey? first
  exact inside

theorem firstAt?_eq_none_iff {entries : List (κ × α)} :
    firstAt? entries key = none ↔ ∀ value, (key, value) ∉ entries := by
  rw [firstAt?, Option.map_eq_none_iff, findKey?_eq_none_iff]
  constructor
  · exact fun absent value inside => absent _ inside rfl
  · rintro absent ⟨_, value⟩ inside rfl
    exact absent value inside

theorem eq_of_nodup_keys {entries : List (κ × α)} (nodup : (entries.map Prod.fst).Nodup)
    {other : α} (first : (key, value) ∈ entries) (second : (key, other) ∈ entries) :
    value = other := by
  have found : findKey? Prod.fst entries key = some (key, value) := findKey?_of_mem nodup first
  have again : findKey? Prod.fst entries key = some (key, other) := findKey?_of_mem nodup second
  exact congrArg Prod.snd (Option.some.inj (found.symm.trans again))

/-- A key whose entries agree has the value that is there. -/
theorem firstAt?_eq_some_iff_mem {entries : List (κ × α)}
    (sole : ∀ one other, (key, one) ∈ entries → (key, other) ∈ entries → one = other) :
    firstAt? entries key = some value ↔ (key, value) ∈ entries :=
  find?_map_snd_eq_some_iff sole

/--
When claimants come in order, and none has two values for a key, the first value is that of
the least claimant that has one.
-/
theorem firstAt?_flatMap_eq_some_iff {σ : Type} {R : σ → σ → Prop} {claimants : List σ}
    {made : σ → List (κ × α)} (ordered : claimants.Pairwise R)
    (asymmetric : ∀ one other, R one other → ¬ R other one)
    (sole : ∀ claimant one other, (key, one) ∈ made claimant → (key, other) ∈ made claimant →
      one = other) :
    firstAt? (claimants.flatMap made) key = some value ↔
      ∃ claimant ∈ claimants, (key, value) ∈ made claimant ∧
        ∀ earlier ∈ claimants, R earlier claimant → ∀ other, (key, other) ∉ made earlier := by
  induction claimants with
  | nil => simp [firstAt?, findKey?]
  | cons head rest ih =>
      obtain ⟨headBefore, restOrdered⟩ := List.pairwise_cons.mp ordered
      rw [List.flatMap_cons, firstAt?_append]
      cases first : firstAt? (made head) key with
      | some kept =>
          have keptMade := mem_of_firstAt? first
          rw [Option.some_or, Option.some.injEq]
          constructor
          · rintro rfl
            refine ⟨head, List.mem_cons_self, keptMade, fun earlier inside before => ?_⟩
            rcases List.mem_cons.mp inside with rfl | later
            · exact absurd before (asymmetric earlier earlier before)
            · exact absurd before (asymmetric head earlier (headBefore earlier later))
          · rintro ⟨claimant, inside, claimed, least⟩
            rcases List.mem_cons.mp inside with rfl | later
            · exact sole claimant kept value keptMade claimed
            · exact absurd keptMade (least head List.mem_cons_self (headBefore claimant later) kept)
      | none =>
          have headSilent := firstAt?_eq_none_iff.mp first
          rw [Option.none_or, ih restOrdered]
          constructor
          · rintro ⟨claimant, inside, claimed, least⟩
            refine ⟨claimant, List.mem_cons_of_mem head inside, claimed, ?_⟩
            intro earlier listed before
            rcases List.mem_cons.mp listed with rfl | later
            · exact headSilent
            · exact least earlier later before
          · rintro ⟨claimant, inside, claimed, least⟩
            rcases List.mem_cons.mp inside with rfl | later
            · exact absurd claimed (headSilent value)
            · exact ⟨claimant, later, claimed, fun earlier listed =>
                least earlier (List.mem_cons_of_mem head listed)⟩

section ByPlace

variable {β : Type} {values : List α} {make : α → Nat → β} {place : Nat}

def byPlace (make : α → Nat → β) (values : List α) : List (Nat × β) :=
  values.zipIdx.map fun entry => (entry.2, make entry.1 entry.2)

theorem mem_byPlace {made : β} : (place, made) ∈ byPlace make values ↔
    ∃ value, values[place]? = some value ∧ make value place = made := by
  simp only [byPlace, List.mem_map, Prod.exists, Prod.mk.injEq, List.mem_zipIdx_iff_getElem?]
  constructor
  · rintro ⟨value, _, found, rfl, rfl⟩
    exact ⟨value, found, rfl⟩
  · rintro ⟨value, found, rfl⟩
    exact ⟨value, place, found, rfl, rfl⟩

theorem nodup_byPlace (make : α → Nat → β) (values : List α) :
    ((byPlace make values).map Prod.fst).Nodup := by
  rw [byPlace, List.map_map]
  exact List.pairwise_map.mpr ((pairwise_zipIdx values 0).imp Nat.ne_of_lt)

theorem firstAt?_byPlace (make : α → Nat → β) (values : List α) (place : Nat) :
    firstAt? (byPlace make values) place = values[place]?.map fun value => make value place := by
  refine Option.ext fun made => ?_
  rw [firstAt?_eq_some_iff_mem fun _ _ => eq_of_nodup_keys (nodup_byPlace make values), mem_byPlace,
    Option.map_eq_some_iff]

end ByPlace

def assign (cells : κ → Option α) (entry : κ × α) : κ → Option α :=
  fun key => if entry.1 = key then some entry.2 else cells key

/-- When the entries for each key agree, assigning all of them puts them in their cells. -/
theorem foldl_assign {entries : List (κ × α)}
    (sole : ∀ key one other, (key, one) ∈ entries → (key, other) ∈ entries → one = other)
    (cells : κ → Option α) :
    entries.foldl assign cells = fun key => (firstAt? entries key).or (cells key) := by
  funext key
  induction entries generalizing cells with
  | nil => rfl
  | cons head rest ih =>
      have restSole := fun key one other first second =>
        sole key one other (List.mem_cons_of_mem head first) (List.mem_cons_of_mem head second)
      rw [List.foldl_cons, ih restSole, firstAt?_cons, assign]
      by_cases same : head.1 = key
      · rw [if_pos same, if_pos same]
        cases later : firstAt? rest key with
        | none => rfl
        | some other =>
            have listed := List.mem_cons_of_mem head (mem_of_firstAt? later)
            have agree := sole key head.2 other (same ▸ List.mem_cons_self) listed
            rw [agree, Option.some_or, Option.some_or]
      · rw [if_neg same, if_neg same]

theorem foldl_assign_free {entries : List (κ × α)}
    (sole : ∀ key one other, (key, one) ∈ entries → (key, other) ∈ entries → one = other) :
    entries.foldl assign (fun _ => none) = firstAt? entries := by
  rw [foldl_assign sole]
  exact funext fun _ => Option.or_none

end Entries

end Lookahead
