/-!
# Bounded decimal counts

A count is written in ASCII digits, a plus sign may stand before them, and its
value fits in 64 bits.
-/

namespace Lookahead.Text

namespace Decimal

inductive Fault where
  | empty
  | invalidDigit
  | tooLarge
  deriving DecidableEq, Inhabited

def bound : Nat := 18446744073709551616

def digitValue (character : Char) : Nat := character.toNat - '0'.toNat

/-- Read on after digits worth `value`; the first digit that is wrong or too much decides. -/
def readDigits (value : Nat) : List Char → Except Fault Nat
  | [] => .ok value
  | character :: rest =>
      if character.isDigit then
        let longer := 10 * value + digitValue character
        if longer < bound then readDigits longer rest else .error .tooLarge
      else .error .invalidDigit

def read : List Char → Except Fault Nat
  | [] => .error .empty
  | ['+'] => .error .invalidDigit
  | '+' :: digits => readDigits 0 digits
  | digits => readDigits 0 digits

end Decimal

end Lookahead.Text
