import Rollout.Number.Binary64

/-!
Number literals of a JSON document and their values. Integers that fit 64 bits stay integers;
everything else becomes a double. The digits of a literal are gathered into a significand of
64 bits; digits past it only count towards the power of ten.
-/

namespace Rollout.Json

open Number

/-- A number as written: sign, digits before the point, digits after it, and the sign and the
value of the exponent. -/
structure Literal where
  negative : Bool
  whole : List Nat
  fraction : Option (List Nat)
  exponent : Option (Bool × Nat)
deriving DecidableEq, Repr

/-- The value of a number. -/
inductive Numeral where
  | int (n : Int)
  | float (x : Binary64)
deriving DecidableEq, Repr

/-- One past the greatest significand. -/
def significandBound : Nat := UInt64.size

/-- Digits added to a significand while they fit, and the digits left over. -/
def gather (significand : Nat) : List Nat → Nat × List Nat
  | [] => (significand, [])
  | d :: ds =>
    if significand * 10 + d < significandBound then gather (significand * 10 + d) ds
    else (significand, d :: ds)

/-- The double of a significand and a power of ten, if it is in range. -/
def scaled (negative : Bool) (significand : Nat) (exponent : Int) : Option Numeral :=
  (ofDecimal significand exponent).map fun (m, e) => .float ⟨negative, m, e⟩

/-- Zero as a double. -/
def floatZero (negative : Bool) : Numeral := .float ⟨negative, 0, leastExponent⟩

/-- The double of a significand, a power of ten and the exponent part of a literal. An
exponent past 31 bits leaves zero, or is out of range. -/
def withExponent (negative : Bool) (significand : Nat) (start : Int) :
    Option (Bool × Nat) → Option Numeral
  | none => scaled negative significand start
  | some (minus, n) =>
    if UInt32.size / 2 ≤ n then
      if significand ≠ 0 ∧ !minus then none else some (floatZero negative)
    else scaled negative significand (if minus then start - n else start + n)

/-- The value of an integer literal whose digits fit a significand. Minus zero and integers
below the 64-bit range are doubles. -/
def wholeNumeral (negative : Bool) (n : Nat) : Option Numeral :=
  if !negative then some (.int n)
  else if n = 0 ∨ UInt64.size / 2 < n then scaled true n 0
  else some (.int (-n))

/-- The value of a literal; none when it exceeds the doubles. -/
def Literal.value? (l : Literal) : Option Numeral :=
  let (significand, dropped) := gather 0 l.whole
  match l.fraction with
  | some digits =>
    let (significand, rest) := gather significand digits
    let start : Int := (dropped.length : Int) - ((digits.length : Int) - rest.length)
    withExponent l.negative significand start l.exponent
  | none =>
    if dropped.isEmpty ∧ l.exponent.isNone then wholeNumeral l.negative significand
    else withExponent l.negative significand dropped.length l.exponent

/-- The digits of a decimal with the point after the first `places`, padded with zeros. -/
def pointText (digits : List Char) (places : Int) : List Char :=
  if places ≤ 0 then
    '0' :: '.' :: (List.replicate (-places).toNat '0' ++ digits)
  else
    let n := places.toNat
    let whole := digits.take n ++ List.replicate (n - digits.length) '0'
    let fraction := digits.drop n
    whole ++ '.' :: (if fraction.isEmpty then ['0'] else fraction)

/-- The digits of a decimal in scientific form. -/
def scientificText (digits : List Char) (exponent : Int) : List Char :=
  let mantissa :=
    match digits with
    | [] => ['0']
    | [d] => [d]
    | d :: ds => d :: '.' :: ds
  let sign := if exponent < 0 then '-' else '+'
  mantissa ++ 'e' :: sign :: Nat.toDigits 10 exponent.natAbs

/-- The text of a double: the fewest digits that read back, positional for decimal exponents
from -5 to 15 and always with a fraction or an exponent. -/
def floatText (x : Binary64) : List Char :=
  let magnitude :=
    if x.mantissa = 0 then ['0', '.', '0']
    else
      let (d, k) := stripZeros 400 (shortestDecimal x.mantissa x.exponent)
      let digits := Nat.toDigits 10 d
      let exponent := k + digits.length - 1
      if -5 ≤ exponent ∧ exponent ≤ 15 then pointText digits (exponent + 1)
      else scientificText digits exponent
  if x.negative then '-' :: magnitude else magnitude

/-- The text of an integer. -/
def intText (n : Int) : List Char :=
  if n < 0 then '-' :: Nat.toDigits 10 n.natAbs else Nat.toDigits 10 n.natAbs

end Rollout.Json
