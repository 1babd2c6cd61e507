/-!
Double-precision numbers, exactly. A finite double is a sign, a mantissa and a power of two;
rounding goes to the nearest double with ties to the even mantissa, all in natural-number
arithmetic. The shortest decimal of a double is the one with the fewest digits that lies in
the interval of numbers rounding to it.
-/

namespace Rollout.Number

/-- A finite double: its sign and its magnitude `mantissa * 2 ^ exponent`. -/
structure Binary64 where
  negative : Bool
  mantissa : Nat
  exponent : Int
deriving DecidableEq, Repr

/-- The least exponent of a double. -/
def leastExponent : Int := -1074

/-- The greatest exponent of a double. -/
def greatestExponent : Int := 971

/-- The least mantissa with all 53 bits: that of the least double of every magnitude but the
smallest. -/
def hiddenBit : Nat := Nat.pow 2 52

/-- `num / den` rounded to the nearest natural number, a half to the even neighbour. -/
def roundDiv (num den : Nat) : Nat :=
  let q := num / den
  let r := num % den
  if 2 * r < den then q
  else if den < 2 * r then q + 1
  else if q % 2 = 0 then q else q + 1

/-- `n * 2 ^ e` as a fraction. -/
def scaleByTwo (n : Nat) (e : Int) : Nat × Nat :=
  if 0 ≤ e then (n * Nat.pow 2 e.toNat, 1) else (n, Nat.pow 2 (-e).toNat)

/-- The mantissa and the exponent of the double nearest to `num / den`; none when it lies
beyond the greatest double. -/
def roundRatio (num den : Nat) : Option (Nat × Int) :=
  if num = 0 then some (0, leastExponent)
  else
    let bits : Int := (Nat.log2 num : Int) - (Nat.log2 den : Int)
    let (lowNum, lowDen) := scaleByTwo den bits
    let top := if lowNum ≤ num * lowDen then bits else bits - 1
    let e := max (top - 52) leastExponent
    let (sNum, sDen) := scaleByTwo den e
    let m := roundDiv (num * sDen) sNum
    let (m, e) := if m = 2 * hiddenBit then (hiddenBit, e + 1) else (m, e)
    if greatestExponent < e then none else some (m, e)

/-- The double nearest to `10 ^ n`, for `n` up to 308. -/
def powerOfTen (n : Nat) : Nat × Int :=
  (roundRatio (Nat.pow 10 n) 1).getD (0, leastExponent)

/-- The product of two magnitudes, rounded. -/
def mulMagnitude (x y : Nat × Int) : Option (Nat × Int) :=
  let (num, den) := scaleByTwo (x.1 * y.1) (x.2 + y.2)
  roundRatio num den

/-- The quotient of two magnitudes, rounded. -/
def divMagnitude (x y : Nat × Int) : Option (Nat × Int) :=
  let (num, den) := scaleByTwo x.1 (x.2 - y.2)
  roundRatio num (den * y.1)

/-- A magnitude divided by ten to the power `n`, at most 308 powers at a time. -/
def divPowerOfTen (x : Nat × Int) (n : Nat) : Option (Nat × Int) :=
  if n ≤ 308 then divMagnitude x (powerOfTen n)
  else if x.1 = 0 then some x
  else
    match divMagnitude x (powerOfTen 308) with
    | none => none
    | some y => divPowerOfTen y (n - 308)
termination_by n

/-- The magnitude read from `significand * 10 ^ exponent`: the significand is rounded first
and then scaled by a rounded power of ten. None when the result is out of range. -/
def ofDecimal (significand : Nat) (exponent : Int) : Option (Nat × Int) :=
  match roundRatio significand 1 with
  | none => none
  | some x =>
    if exponent < 0 then divPowerOfTen x (-exponent).toNat
    else if exponent ≤ 308 then mulMagnitude x (powerOfTen exponent.toNat)
    else if x.1 = 0 then some x
    else none

/-- How many decimal digits a number has; none for zero. -/
def digitCount (n : Nat) : Nat :=
  if n = 0 then 0 else (Nat.toDigits 10 n).length

/-- The greatest `k` with `10 ^ k ≤ num / den`, for a positive fraction. -/
def floorLog10 (num den : Nat) : Int :=
  if den ≤ num then (digitCount (num / den) : Int) - 1
  else -(digitCount ((den - 1) / num) : Int)

/-- `num / den` divided by `10 ^ k`, as a fraction. -/
def overPowerOfTen (num den : Nat) (k : Int) : Nat × Nat :=
  if 0 ≤ k then (num, den * Nat.pow 10 k.toNat) else (num * Nat.pow 10 (-k).toNat, den)

/-- On the grid of multiples of `10 ^ k`, the neighbour of the value that rounds back to it:
the nearer one if both do, and the even one at an exact tie. The value is `num / den`, and
`low`, `high` over `den` bound what rounds to it, the bounds themselves only if `closed`. -/
def gridPoint (num den low high : Nat) (closed : Bool) (k : Int) : Option Nat :=
  let (n, d) := overPowerOfTen num den k
  let (lo, _) := overPowerOfTen low den k
  let (hi, _) := overPowerOfTen high den k
  let below := n / d
  let above := below + 1
  let fits (c : Nat) : Bool :=
    if closed then lo ≤ c * d && c * d ≤ hi else lo < c * d && c * d < hi
  match fits below, fits above with
  | true, true =>
    let toBelow := n - below * d
    let toAbove := above * d - n
    if toBelow < toAbove then some below
    else if toAbove < toBelow then some above
    else if below % 2 = 0 then some below else some above
  | true, false => some below
  | false, true => some above
  | false, false => none

/-- The first grid with a point, from one digit on. -/
def firstGrid (num den low high : Nat) (closed : Bool) (top : Int) : Nat → Nat → Nat × Int
  | 0, _ => (num / den, 0)
  | fuel + 1, digits =>
    let k := top - digits
    match gridPoint num den low high closed k with
    | some d => (d, k)
    | none => firstGrid num den low high closed top fuel (digits + 1)

/-- Digits and power of ten of the shortest decimal that rounds to a positive magnitude. -/
def shortestDecimal (mantissa : Nat) (exponent : Int) : Nat × Int :=
  let lower := if mantissa = hiddenBit ∧ leastExponent < exponent then 1 else 2
  let (num, den) := scaleByTwo (4 * mantissa) (exponent - 2)
  let (low, _) := scaleByTwo (4 * mantissa - lower) (exponent - 2)
  let (high, _) := scaleByTwo (4 * mantissa + 2) (exponent - 2)
  firstGrid num den low high (mantissa % 2 = 0) (floorLog10 num den) 18 0

/-- A decimal without trailing zeros in its digits. -/
def stripZeros : Nat → Nat × Int → Nat × Int
  | 0, x => x
  | fuel + 1, (d, k) => if d ≠ 0 ∧ d % 10 = 0 then stripZeros fuel (d / 10, k + 1) else (d, k)

end Rollout.Number
