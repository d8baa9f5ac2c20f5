import Lookahead.Parse.Machine

/-!
# Runs of a machine

A machine has one run from each configuration, so whatever two things it
reaches lie one after the other, and it gives one result at most.
-/

namespace Lookahead.Machine

variable {Config Result : Type} {step : Config → Step Config Result}

namespace Reaches

theorem single {config next : Config} (first : step config = .next next) :
    Reaches step config next :=
  .step (.refl config) first

theorem trans {config middle last : Config} (lower : Reaches step config middle)
    (upper : Reaches step middle last) : Reaches step config last := by
  induction upper with
  | refl => exact lower
  | step _ next ih => exact .step ih next

theorem head {config next last : Config} (first : step config = .next next)
    (rest : Reaches step next last) : Reaches step config last :=
  (single first).trans rest

/-- What every step keeps holds of each configuration that is reached. -/
theorem invariant {P : Config → Prop}
    (kept : ∀ config next, P config → step config = .next next → P next) {config last : Config}
    (holds : P config) (reached : Reaches step config last) : P last := by
  induction reached with
  | refl => exact holds
  | step _ next ih => exact kept _ _ ih next

/-- A run goes on to the result of any configuration that it reaches. -/
theorem halts {config middle : Config} {result : Result} (before : Reaches step config middle)
    (rest : Halts step middle result) : Halts step config result := by
  induction before with
  | refl => exact rest
  | step _ next ih => exact ih (.next next rest)

end Reaches

namespace Halts

/-- Every configuration that a run reaches gives the run's result. -/
theorem of_reaches {config middle : Config} {result : Result} (whole : Halts step config result)
    (before : Reaches step config middle) : Halts step middle result := by
  induction before with
  | refl => exact whole
  | step _ next ih =>
      cases ih with
      | halt last => cases next.symm.trans last
      | next first rest =>
          rw [next, Step.next.injEq] at first
          exact first ▸ rest

theorem unique {config : Config} {first second : Result} (one : Halts step config first)
    (other : Halts step config second) : first = second := by
  induction one with
  | halt last =>
      cases other with
      | halt again =>
          rw [last, Step.halt.injEq] at again
          exact again
      | next next _ => cases last.symm.trans next
  | next next _ ih => exact ih (other.of_reaches (.single next))

/-- The result is given by a configuration that the run reaches. -/
theorem exists_last {config : Config} {result : Result} (whole : Halts step config result) :
    ∃ last, Reaches step config last ∧ step last = .halt result := by
  induction whole with
  | @halt config _ last => exact ⟨config, .refl config, last⟩
  | next first _ ih =>
      obtain ⟨last, reached, halted⟩ := ih
      exact ⟨last, reached.head first, halted⟩

end Halts

def after (step : Config → Step Config Result) : Nat → Config → Option Config
  | 0, config => some config
  | count + 1, config =>
      match step config with
      | .halt _ => none
      | .next next => after step count next

theorem after_succ_of_next {config next : Config} (first : step config = .next next)
    (count : Nat) : after step (count + 1) config = after step count next := by
  simp only [after, first]

theorem after_add (first second : Nat) (config : Config) :
    after step (first + second) config = (after step first config).bind (after step second) := by
  induction first generalizing config with
  | zero => simp [after]
  | succ first ih =>
      rw [Nat.succ_add]
      cases taken : step config with
      | halt result => simp only [after, taken, Option.bind_none]
      | next next => simp only [after, taken, ih]

theorem run_add_of_after {count : Nat} {config middle : Config}
    (found : after step count config = some middle) (bound : Nat) :
    run step (count + bound) config = run step bound middle := by
  induction count generalizing config with
  | zero => rw [Nat.zero_add, Option.some.inj found]
  | succ count ih =>
      rw [Nat.succ_add]
      cases taken : step config with
      | halt result => exact absurd found (by simp [after, taken])
      | next next =>
          rw [after_succ_of_next taken] at found
          simp only [run, taken]
          exact ih found

theorem reaches_of_after {count : Nat} {config last : Config}
    (found : after step count config = some last) : Reaches step config last := by
  induction count generalizing config with
  | zero => exact Option.some.inj found ▸ .refl config
  | succ count ih =>
      simp only [after] at found
      split at found
      · exact absurd found (by simp)
      · rename_i first
        exact (ih found).head first

/-- A machine that stops makes a bounded number of steps. -/
theorem exists_after_eq_none {config : Config} {result : Result}
    (whole : Halts step config result) : ∃ count, after step count config = none := by
  induction whole with
  | halt last => exact ⟨1, by simp only [after, last]⟩
  | next first _ ih =>
      obtain ⟨count, stopped⟩ := ih
      exact ⟨count + 1, (after_succ_of_next first count).trans stopped⟩

/-- A configuration that comes back comes back again. -/
theorem after_mul {count : Nat} {config : Config} (again : after step count config = some config)
    (times : Nat) : after step (times * count) config = some config := by
  induction times with
  | zero => rw [Nat.zero_mul]; rfl
  | succ times ih => rw [Nat.succ_mul, after_add, ih, Option.bind_some, again]

/-- A machine never stops once a configuration comes back. -/
theorem not_halts_of_after {count : Nat} {config : Config}
    (again : after step (count + 1) config = some config) (result : Result) :
    ¬ Halts step config result := by
  intro halts
  obtain ⟨bound, stopped⟩ := exists_after_eq_none halts
  have later := after_mul again bound
  rw [Nat.mul_succ, Nat.add_comm, after_add, stopped] at later
  exact absurd later (by simp)

end Lookahead.Machine
