import Lookahead.Data.Exploration
import Lookahead.Proofs.Parse.Budget
import Lookahead.Proofs.SLR1.Falling

/-!
# The step bound of the shift-reduce parser

The states that reductions of empty bodies leave on the stack are different, and
so are those that come up one after another above one state, or the reductions
never end.  So the bound on the steps of a parse is never too low, and a parse
that does not stop comes to reductions that never end.
-/

namespace Lookahead.SLR1.Tables

variable {tables : Tables} {lookahead : Symbol} {stack next part : List Nat} {path : List Nat}

/-- Few reductions are made before a low stack is left from which none is made. -/
def Settles (tables : Tables) (lookahead : Symbol) (steps height : Nat) (stack : List Nat) : Prop :=
  ∃ count last, tables.Falls lookahead stack count last ∧ tables.fall? lookahead last = none ∧
    count ≤ steps ∧ last.length ≤ height

/-- Few reductions are made from a stack, or they never end. -/
def Bounded (tables : Tables) (lookahead : Symbol) (steps height : Nat) (stack : List Nat) : Prop :=
  tables.Settles lookahead steps height stack ∨ tables.Endless lookahead stack

theorem Bounded.of_falls {count steps more height : Nat}
    (falls : tables.Falls lookahead stack count next)
    (bounded : tables.Bounded lookahead steps height next) (le : count + steps ≤ more) :
    tables.Bounded lookahead more height stack := by
  rcases bounded with ⟨later, last, onward, rests, spent, low⟩ | endless
  · exact .inl ⟨count + later, last, falls.trans onward, rests, by omega, low⟩
  · exact .inr (.of_falls falls endless)

theorem Bounded.of_rests {steps height : Nat} (rests : tables.fall? lookahead stack = none)
    (low : stack.length ≤ height) : tables.Bounded lookahead steps height stack :=
  .inl ⟨0, stack, .refl stack, rests, Nat.zero_le steps, low⟩

/-- The steps above one state, when all but a number of states are on the path to it. -/
def cost (tables : Tables) : Nat → Nat
  | 0 => 0
  | depth + 1 => 1 + tables.states * (cost tables depth + 1)

theorem cost_lt (tables : Tables) (depth : Nat) :
    tables.cost depth + 1 ≤ Nat.pow (tables.states + 2) depth := by
  induction depth with
  | zero => exact Nat.le_refl 1
  | succ depth ih =>
      have inner := Nat.mul_le_mul_left tables.states ih
      have positive : 0 < Nat.pow (tables.states + 2) depth := Nat.pow_pos (Nat.succ_pos _)
      have grown : Nat.pow (tables.states + 2) (depth + 1) =
          Nat.pow (tables.states + 2) depth * (tables.states + 2) := Nat.pow_succ _ _
      rw [cost, grown, Nat.mul_comm _ (tables.states + 2), Nat.add_mul]
      omega

theorem lt_states_of_fall? {state : Nat} {below : List Nat}
    (falls : tables.fall? lookahead (state :: below) = some next) : state < tables.states := by
  obtain ⟨top, _, _, _, _, _, _, _, isStack, action, _⟩ := fall?_eq_some_iff.mp falls
  rw [← (List.cons.inj isStack).1] at action
  obtain ⟨row, found, _⟩ := Option.bind_eq_some_iff.mp action
  exact (List.getElem?_eq_some_iff.mp found).1

theorem exists_pushed {state : Nat} (falls : tables.fall? lookahead [state] = some next) :
    ∃ goes, next = [goes, state] := by
  obtain ⟨_, _, _, _, production, exposed, below, goes, _, _, _, isDrop, _, same⟩ :=
    fall?_eq_some_iff.mp falls
  cases isLength : production.length with
  | zero =>
      rw [isLength, List.drop_zero] at isDrop
      exact ⟨goes, by rw [same, ← isDrop]⟩
  | succ length => exact absurd isDrop (by simp [isLength])

/-- Different states from each of which, above a base, reductions lead to a part of a stack. -/
structure Trail (tables : Tables) (lookahead : Symbol) (base path part : List Nat) : Prop where
  nodup : path.Nodup
  known : ∀ state ∈ path, state < tables.states
  leads : ∀ state ∈ path, ∃ count extra,
    tables.Falls lookahead (state :: base) (count + 1) (part ++ extra)

namespace Trail

variable {base : List Nat} {state count : Nat}

theorem nil (tables : Tables) (lookahead : Symbol) (base part : List Nat) :
    tables.Trail lookahead base [] part :=
  ⟨.nil, List.forall_mem_nil _, List.forall_mem_nil _⟩

theorem of_append (more : List Nat) (trail : tables.Trail lookahead base path (part ++ more)) :
    tables.Trail lookahead base path part where
  nodup := trail.nodup
  known := trail.known
  leads := by
    intro state inside
    obtain ⟨count, extra, falls⟩ := trail.leads state inside
    rw [List.append_assoc] at falls
    exact ⟨count, more ++ extra, falls⟩

theorem falls (trail : tables.Trail lookahead base path part)
    (onward : tables.Falls lookahead part count next) :
    tables.Trail lookahead base path next where
  nodup := trail.nodup
  known := trail.known
  leads := by
    intro state inside
    obtain ⟨before, extra, lower⟩ := trail.leads state inside
    refine ⟨before + count, extra, ?_⟩
    rw [Nat.add_right_comm]
    exact lower.trans (onward.append extra)

theorem cons (trail : tables.Trail lookahead base path (state :: base)) (fresh : state ∉ path)
    (known : state < tables.states)
    (onward : tables.Falls lookahead (state :: base) (count + 1) next) :
    tables.Trail lookahead base (state :: path) next where
  nodup := List.nodup_cons.mpr ⟨fresh, trail.nodup⟩
  known := by
    intro other inside
    rcases List.mem_cons.mp inside with here | later
    · exact here ▸ known
    · exact trail.known other later
  leads := by
    intro other inside
    rcases List.mem_cons.mp inside with here | later
    · exact ⟨count, [], by rw [here, List.append_nil]; exact onward⟩
    · exact (trail.falls onward).leads other later

theorem length_lt (trail : tables.Trail lookahead base path part) (fresh : state ∉ path)
    (known : state < tables.states) : path.length < tables.states := by
  have among : ∀ other ∈ state :: path, other ∈ List.range tables.states := by
    intro other inside
    rcases List.mem_cons.mp inside with here | later
    · exact List.mem_range.mpr (here ▸ known)
    · exact List.mem_range.mpr (trail.known other later)
  have le := length_le_of_nodup_of_subset (List.nodup_cons.mpr ⟨fresh, trail.nodup⟩) among
  rwa [List.length_range] at le

/-- A state that comes up again above the same base comes up for ever. -/
theorem endless (trail : tables.Trail lookahead base path (state :: base)) (again : state ∈ path) :
    tables.Endless lookahead (state :: base) := by
  obtain ⟨count, extra, falls⟩ := trail.leads state again
  exact ⟨0, state :: base, [], extra, count, by rw [List.append_nil]; exact .refl _, falls⟩

/-- Few reductions are made, or they never end, or the state has not come up before. -/
theorem bounded_or_fresh {height : Nat} (trail : tables.Trail lookahead base path (state :: base))
    (low : (state :: base).length ≤ height) (steps : Nat) :
    tables.Bounded lookahead steps height (state :: base) ∨
      ∃ next, tables.fall? lookahead (state :: base) = some next ∧ state ∉ path ∧
        state < tables.states := by
  cases first : tables.fall? lookahead (state :: base) with
  | none => exact .inl (.of_rests first low)
  | some next =>
      by_cases again : state ∈ path
      · exact .inl (.inr (trail.endless again))
      · exact .inr ⟨next, rfl, again, lt_states_of_fall? first⟩

end Trail

def BoundedAbove (tables : Tables) (lookahead : Symbol) (depth : Nat) : Prop :=
  ∀ (path : List Nat) (state : Nat), tables.Trail lookahead [] path [state] →
    tables.states ≤ path.length + depth →
    tables.Bounded lookahead (tables.cost depth) (1 + depth) [state]

/-- Different states come up one after another above an exposed one. -/
theorem bounded_chain {depth : Nat} (above : tables.BoundedAbove lookahead depth)
    (path : List Nat) (deep : tables.states ≤ path.length + depth) (rounds : Nat)
    {exposed state : Nat} {seen : List Nat}
    (isSeen : tables.Trail lookahead [exposed] seen [state, exposed])
    (few : tables.states ≤ seen.length + rounds)
    (isPath : tables.Trail lookahead [] path [state, exposed]) :
    tables.Bounded lookahead (rounds * (tables.cost depth + 1)) (2 + depth) [state, exposed] := by
  induction rounds generalizing seen state with
  | zero =>
      rcases isSeen.bounded_or_fresh (Nat.le_add_right 2 depth) _ with
        bounded | ⟨_, _, fresh, known⟩
      · exact bounded
      · exact absurd (isSeen.length_lt fresh known) (Nat.not_lt.mpr few)
  | succ rounds ih =>
      rcases isSeen.bounded_or_fresh (Nat.le_add_right 2 depth) _ with
        bounded | ⟨_, _, fresh, known⟩
      · exact bounded
      · rcases above path state (.of_append [exposed] isPath) deep with
          ⟨count, last, falls, rests, spent, low⟩ | endless
        · have moved : tables.Falls lookahead [state, exposed] count (last ++ [exposed]) :=
            falls.append [exposed]
          cases uncovers : tables.fall? lookahead (last ++ [exposed]) with
          | none =>
              refine .inl ⟨count, last ++ [exposed], moved, uncovers, ?_, ?_⟩
              · rw [Nat.succ_mul]
                omega
              · rw [List.length_append, List.length_singleton]
                omega
          | some next =>
              -- The exposed state goes on to another state, with one state less to come up again.
              obtain ⟨goes, same⟩ := exists_uncovered rests (falls.ne_nil (by simp)) uncovers
              subst same
              have onward := moved.trans (.single uncovers)
              have more := isSeen.cons fresh known onward
              refine .of_falls onward (ih more ?_ (isPath.falls onward)) ?_
              · rw [List.length_cons]
                omega
              · rw [Nat.succ_mul]
                omega
        · exact .inr (endless.append [exposed])

/-- A state alone pushes another one above itself, or rests. -/
theorem boundedAbove (tables : Tables) (lookahead : Symbol) (depth : Nat) :
    tables.BoundedAbove lookahead depth := by
  induction depth with
  | zero =>
      intro path state isPath deep
      rcases isPath.bounded_or_fresh (Nat.le_refl 1) _ with bounded | ⟨_, _, fresh, known⟩
      · exact bounded
      · exact absurd (isPath.length_lt fresh known) (Nat.not_lt.mpr deep)
  | succ depth ih =>
      intro path state isPath deep
      rcases isPath.bounded_or_fresh (Nat.le_add_right 1 _) _ with
        bounded | ⟨next, first, fresh, known⟩
      · exact bounded
      · obtain ⟨goes, same⟩ := exists_pushed first
        subst same
        have longer := isPath.cons fresh known (.single first)
        have chain := bounded_chain ih (state :: path) (by rw [List.length_cons]; omega)
          tables.states (.nil tables lookahead [state] [goes, state]) (Nat.le_add_left _ _) longer
        rw [Nat.add_right_comm 1 1 depth] at chain
        exact .of_falls (.single first) chain (Nat.le_refl _)

def share (tables : Tables) : Nat := Nat.pow (tables.states + 2) (tables.states + 1)

theorem cost_lt_share (tables : Tables) : tables.cost tables.states + 1 ≤ tables.share :=
  Nat.le_trans (tables.cost_lt tables.states)
    (Nat.pow_le_pow_right (Nat.succ_pos _) (Nat.le_succ _))

theorem cost_succ_lt_share (tables : Tables) :
    1 + tables.states * (tables.cost tables.states + 1) + 1 ≤ tables.share :=
  tables.cost_lt (tables.states + 1)

theorem Bounded.mono {steps height higher : Nat}
    (bounded : tables.Bounded lookahead steps height stack) (le : height ≤ higher) :
    tables.Bounded lookahead steps higher stack := by
  rcases bounded with ⟨count, last, falls, rests, spent, low⟩ | endless
  · exact .inl ⟨count, last, falls, rests, spent, Nat.le_trans low le⟩
  · exact .inr endless

/-- The states below a part that rests are uncovered one after another. -/
theorem bounded_base (base : List Nat) {last : List Nat}
    (rests : tables.fall? lookahead last = none) (filled : last ≠ []) :
    tables.Bounded lookahead (base.length * tables.share)
      (max last.length (1 + tables.states) + base.length) (last ++ base) := by
  -- The part that rests takes in the next state below, or makes way for a single state above it.
  induction base generalizing last with
  | nil =>
      rw [List.append_nil]
      exact .of_rests rests (Nat.le_max_left _ _)
  | cons exposed below ih =>
      have regroup : last ++ exposed :: below = (last ++ [exposed]) ++ below := by
        rw [List.append_assoc]
        rfl
      rw [regroup, List.length_cons]
      cases uncovers : tables.fall? lookahead (last ++ [exposed]) with
      | none =>
          have bounded := ih uncovers (by simp)
          rw [List.length_append, List.length_singleton] at bounded
          refine .of_falls (.refl _) (bounded.mono (by omega)) ?_
          rw [Nat.zero_add]
          exact Nat.mul_le_mul_right _ (Nat.le_succ _)
      | some next =>
          obtain ⟨goes, same⟩ := exists_uncovered rests filled uncovers
          subst same
          have first := Falls.append (.single uncovers) below
          rcases bounded_chain (boundedAbove tables lookahead tables.states) []
              (Nat.le_add_left _ _) tables.states
              (.nil tables lookahead [exposed] [goes, exposed]) (Nat.le_add_left _ _)
              (.nil tables lookahead [] [goes, exposed]) with
            ⟨count, lower, falls, lowerRests, spent, low⟩ | endless
          · have bounded := ih lowerRests (falls.ne_nil (by simp))
            have share := tables.cost_succ_lt_share
            refine .of_falls (first.trans (falls.append below)) (bounded.mono (by omega)) ?_
            rw [Nat.succ_mul]
            omega
          · exact .inr (.of_falls first (endless.append below))

/-- From any stack few reductions are made on one lookahead symbol, or they never end. -/
theorem bounded (tables : Tables) (lookahead : Symbol) (state : Nat) (base : List Nat) :
    tables.Bounded lookahead (tables.cost tables.states + base.length * tables.share)
      (base.length + 1 + tables.states) (state :: base) := by
  rcases boundedAbove tables lookahead tables.states [] state (.nil tables lookahead [] [state])
      (Nat.le_add_left _ _) with ⟨count, last, falls, rests, spent, low⟩ | endless
  · have below := bounded_base base rests (falls.ne_nil (by simp))
    exact .of_falls (falls.append base) (below.mono (by omega)) (by omega)
  · exact .inr (endless.append base)

def KeepsEnd (tables : Tables) : Prop :=
  ∀ state goes, tables.action? state .endMarker ≠ some (.shift goes)

/-- From where no reduction is made, a step can only go on by reading one symbol. -/
theorem exists_unread_of_rests (keeps : tables.KeepsEnd) {unread : List Symbol} {position : Nat}
    {config : Config} (rests : tables.fall? (unread.headD .endMarker) stack = none)
    (taken : tables.step ⟨stack, unread, position⟩ = .next config) :
    unread.length = config.unread.length + 1 ∧ config.stack.length = stack.length + 1 := by
  obtain ⟨state, rest, goes, _, cell, same⟩ := exists_shift_of_fall?_eq_none rests taken
  subst same
  cases unread with
  | nil => exact absurd cell (keeps state goes)
  | cons head more => exact ⟨rfl, rfl⟩

/-- A run makes few steps before it reads or stops, or makes reductions that never end. -/
theorem segment_or_endless (keeps : tables.KeepsEnd) (config : Config) :
    Machine.Segment tables.step (fun config => config.stack.length)
        (fun config => config.unread.length) tables.share (tables.states + 1) config ∨
      tables.Endless config.lookahead config.stack := by
  obtain ⟨stack, unread, position⟩ := config
  cases stack with
  | nil =>
      refine .inl ⟨0, _, rfl, Nat.zero_le _, ?_⟩
      intro next taken
      exact absurd taken (by simp [Tables.step])
  | cons state base =>
      rcases tables.bounded (unread.headD .endMarker) state base with
        ⟨count, last, falls, rests, spent, low⟩ | endless
      · have share := tables.cost_lt_share
        have within : count + 1 ≤ (base.length + 1) * tables.share := by
          rw [Nat.succ_mul]
          omega
        refine .inl ⟨count, _, falls.after_eq position, Nat.le_of_succ_le within, ?_⟩
        intro next taken
        obtain ⟨isUnread, grown⟩ := exists_unread_of_rests keeps rests taken
        have higher : next.stack.length ≤ base.length + 1 + (tables.states + 1) := by omega
        exact ⟨within, isUnread, higher⟩
      · exact .inr endless

/-- The step bound cuts off only parses that never stop. -/
theorem parse?_eq_some_iff (keeps : tables.KeepsEnd) (input : List Symbol) (result : ParseResult) :
    tables.parse? input = some result ↔ Machine.Halts tables.step (initial input) result := by
  constructor
  · intro finished
    exact (Machine.exists_run_eq_some_iff _ _ _).mp ⟨_, finished⟩
  · intro halts
    refine Machine.run_budget (fun config => config.stack.length)
      (fun config => config.unread.length) tables.share (tables.states + 1) ?_ halts
    intro config result stops
    rcases segment_or_endless keeps config with segment | endless
    · exact segment
    · exact absurd stops (endless.forever.not_halts result)

/-- A run does not stop exactly when it comes to reductions that never end. -/
theorem not_halts_iff (keeps : tables.KeepsEnd) (config : Config) :
    (¬ ∃ result, Machine.Halts tables.step config result) ↔
      ∃ last, Machine.Reaches tables.step config last ∧
        tables.Endless last.lookahead last.stack := by
  constructor
  · intro never
    generalize isLength : config.unread.length = length
    induction length using Nat.strongRecOn generalizing config with
    | ind length ih =>
        rcases segment_or_endless keeps config with ⟨count, last, found, _, onward⟩ | endless
        · have reached := Machine.reaches_of_after found
          cases taken : tables.step last with
          | halt result => exact absurd ⟨result, reached.halts (.halt taken)⟩ never
          | next next =>
              have isUnread : config.unread.length = next.unread.length + 1 := (onward next taken).2.1
              have further := reached.step taken
              obtain ⟨final, onto, endless⟩ := ih next.unread.length (by omega) next
                (fun ⟨result, halts⟩ => never ⟨result, further.halts halts⟩) rfl
              exact ⟨final, further.trans onto, endless⟩
        · exact ⟨config, .refl config, endless⟩
  · rintro ⟨last, reached, endless⟩ ⟨result, halts⟩
    exact endless.forever.not_halts result (halts.of_reaches reached)

end Lookahead.SLR1.Tables
