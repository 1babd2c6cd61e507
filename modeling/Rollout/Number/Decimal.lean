/-!
Natural numbers read from decimal text, the way a setting or a page token gives them: digits
only, after a plus that may be left out.
-/

namespace Rollout.Number

/-- The value of a decimal digit. -/
def decimalDigit? (c : Char) : Option Nat :=
  if 48 ≤ c.toNat ∧ c.toNat ≤ 57 then some (c.toNat - 48) else none

/-- The number that digits continue. -/
def continueDigits? (n : Nat) : List Char → Option Nat
  | [] => some n
  | c :: cs => (decimalDigit? c).bind fun d => continueDigits? (n * 10 + d) cs

/-- The digits of a number after its plus. -/
def dropPlus : List Char → List Char
  | '+' :: cs => cs
  | cs => cs

/-- The number below `bound` that a text spells. -/
def parseBelow? (bound : Nat) (text : String) : Option Nat :=
  match dropPlus text.toList with
  | [] => none
  | cs => (continueDigits? 0 cs).filter fun n => n < bound

end Rollout.Number
