import Lookahead.Proofs.Parse.Runs

/-!
# Bounds on the steps of a run

A machine reads an input from a stack.  When its steps between two reads are
bounded by the height of the stack, and the stack grows by a bounded height on
the way, the steps of a run that stops are bounded altogether.
-/

namespace Lookahead.Machine

def budget (share growth height unread : Nat) : Nat :=
  (unread + 1) * (height + unread * growth) * share + 1

theorem add_budget_le {share growth height lower unread count : Nat}
    (spent : count + 1 ≤ height * share) (grown : lower ≤ height + growth) :
    count + 1 + budget share growth lower unread ≤ budget share growth height (unread + 1) := by
  have higher : lower + unread * growth ≤ height + (unread + 1) * growth := by
    rw [Nat.succ_mul]
    omega
  have later := Nat.mul_le_mul_right share (Nat.mul_le_mul_left (unread + 1) higher)
  have here : height * share ≤ (height + (unread + 1) * growth) * share :=
    Nat.mul_le_mul_right share (Nat.le_add_right _ _)
  rw [budget, budget, Nat.succ_mul (unread + 1) (height + _), Nat.add_mul _ _ share]
  omega

theorem add_one_le_budget {share growth height unread count : Nat}
    (spent : count ≤ height * share) : count + 1 ≤ budget share growth height unread := by
  refine Nat.add_le_add_right (Nat.le_trans spent (Nat.mul_le_mul_right share ?_)) 1
  apply Nat.le_trans (Nat.le_add_right height (unread * growth))
  exact Nat.le_mul_of_pos_left _ (Nat.succ_pos unread)

variable {Config Result : Type} {step : Config → Step Config Result}

/-- The steps up to the next read, or the end of the run, are within the share of the stack. -/
def Segment (step : Config → Step Config Result) (height unread : Config → Nat)
    (share growth : Nat) (config : Config) : Prop :=
  ∃ count last, after step count config = some last ∧ count ≤ height config * share ∧
    ∀ next, step last = .next next → count + 1 ≤ height config * share ∧
      unread config = unread next + 1 ∧ height next ≤ height config + growth

/-- A run that stops does so within its budget, if every segment is within its share. -/
theorem run_budget (height unread : Config → Nat) (share growth : Nat)
    (segment : ∀ config result, Halts step config result →
      Segment step height unread share growth config)
    {config : Config} {result : Result} (halts : Halts step config result) :
    run step (budget share growth (height config) (unread config)) config = some result := by
  generalize isLeft : unread config = left
  induction left using Nat.strongRecOn generalizing config with
  | ind left ih =>
      obtain ⟨count, last, found, spent, onward⟩ := segment config result halts
      have rest := halts.of_reaches (reaches_of_after found)
      cases rest with
      | halt stopped =>
          have now : run step 1 last = some result := by simp only [run, stopped]
          rw [← run_add_of_after found] at now
          exact run_eq_some_of_le _ (add_one_le_budget spent) _ _ now
      | @next _ next _ first others =>
          obtain ⟨again, isUnread, grown⟩ := onward next first
          have fewer : unread next < left := by omega
          have now : run step (budget share growth (height next) (unread next) + 1) last =
              some result := by
            simp only [run, first]
            exact ih _ fewer others rfl
          rw [← run_add_of_after found] at now
          refine run_eq_some_of_le _ ?_ _ _ now
          have total : count + 1 + budget share growth (height next) (unread next) ≤
              budget share growth (height config) (unread next + 1) := add_budget_le again grown
          rw [← isUnread, isLeft] at total
          omega

end Lookahead.Machine
