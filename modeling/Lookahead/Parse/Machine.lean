/-!
# Deterministic machines

A machine has a step function that gives the next configuration or a result.
Runs are bounded by a number of steps; a longer bound never changes a result.
-/

namespace Lookahead

inductive Step (Config Result : Type) where
  | next (config : Config)
  | halt (result : Result)

namespace Machine

variable {Config Result : Type}

def run (step : Config → Step Config Result) : Nat → Config → Option Result
  | 0, _ => none
  | bound + 1, config =>
      match step config with
      | .halt result => some result
      | .next after => run step bound after

/-- The configurations of a run, in order, with the one that gives the result as the last. -/
def configs (step : Config → Step Config Result) : Nat → Config → List Config
  | 0, _ => []
  | bound + 1, config =>
      match step config with
      | .halt _ => [config]
      | .next after => config :: configs step bound after

inductive Halts (step : Config → Step Config Result) : Config → Result → Prop where
  | halt {config : Config} {result : Result} (last : step config = .halt result) :
      Halts step config result
  | next {config after : Config} {result : Result} (first : step config = .next after)
      (rest : Halts step after result) : Halts step config result

inductive Reaches (step : Config → Step Config Result) : Config → Config → Prop where
  | refl (config : Config) : Reaches step config config
  | step {config middle after : Config} (before : Reaches step config middle)
      (last : step middle = .next after) : Reaches step config after

theorem run_eq_some_of_le (step : Config → Step Config Result) {bound longer : Nat}
    (le : bound ≤ longer) (config : Config) (result : Result)
    (finished : run step bound config = some result) : run step longer config = some result := by
  induction bound generalizing longer config with
  | zero => exact absurd finished (by simp [run])
  | succ bound ih =>
      cases longer with
      | zero => exact absurd le (by simp)
      | succ longer =>
          simp only [run] at finished ⊢
          split at finished
          · exact finished
          · exact ih (Nat.le_of_succ_le_succ le) _ finished

/-- A result is reached within some bound exactly when the machine gives it. -/
theorem exists_run_eq_some_iff (step : Config → Step Config Result) (config : Config)
    (result : Result) :
    (∃ bound, run step bound config = some result) ↔ Halts step config result := by
  constructor
  · rintro ⟨bound, finished⟩
    induction bound generalizing config with
    | zero => exact absurd finished (by simp [run])
    | succ bound ih =>
        simp only [run] at finished
        split at finished
        · rename_i last
          exact .halt (Option.some.inj finished ▸ last)
        · rename_i first
          exact .next first (ih _ finished)
  · intro halts
    induction halts with
    | halt last => exact ⟨1, by simp [run, last]⟩
    | next first _ ih =>
        obtain ⟨bound, finished⟩ := ih
        exact ⟨bound + 1, by simp [run, first, finished]⟩

end Machine

end Lookahead
