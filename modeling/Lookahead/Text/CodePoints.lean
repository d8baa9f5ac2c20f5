/-!
# Tables of code points

A character property is stored as runs of code points in ascending order.
-/

namespace Lookahead.Text

/-- The code points from `first` to `last` in steps of `step`. -/
structure Run where
  first : Nat
  last : Nat
  step : Nat

namespace Run

def contains (run : Run) (point : Nat) : Bool :=
  decide (run.first ≤ point) && decide (point ≤ run.last) &&
    decide ((point - run.first) % run.step = 0)

end Run

/-- Whether a code point lies in a table; no run starts before the end of the one before it. -/
def listed : List Run → Nat → Bool
  | [], _ => false
  | run :: rest, point =>
      if point < run.first then false
      else if point ≤ run.last then run.contains point
      else listed rest point

end Lookahead.Text
