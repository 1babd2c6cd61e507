import Rollout.Toml.Value
import Rollout.Number.Binary64

/-!
Numbers and dates of a TOML document. Each is one word of letters, digits and a few marks; a
word is read as a date, a float or an integer, whichever grammar it fits.
-/

namespace Rollout.Toml

/-- A decimal digit. -/
def isDigit (c : Char) : Bool := 48 ≤ c.toNat && c.toNat ≤ 57

/-- The value of a digit in a base up to 16. -/
def digitIn? (base : Nat) (c : Char) : Option Nat :=
  let n := c.toNat
  let v :=
    if 48 ≤ n ∧ n ≤ 57 then n - 48
    else if 97 ≤ n ∧ n ≤ 102 then n - 87
    else if 65 ≤ n ∧ n ≤ 70 then n - 55
    else 16
  if v < base then some v else none

/-- A character that can be part of a number or a date. -/
def isWordChar (c : Char) : Bool :=
  c.isAlphanum || c = '_' || c = '+' || c = '-' || c = '.' || c = ':'

/-- The digits of a word with single underscores between them, all of it. -/
def digitsIn? (base : Nat) : List Char → Option (List Nat)
  | [] => none
  | [c] => (digitIn? base c).map ([·])
  | c :: '_' :: rest =>
    match digitIn? base c, digitsIn? base rest with
    | some d, some ds => some (d :: ds)
    | _, _ => none
  | c :: rest =>
    match digitIn? base c, digitsIn? base rest with
    | some d, some ds => some (d :: ds)
    | _, _ => none

/-- The number that digits in a base spell. -/
def ofDigits (base : Nat) (ds : List Nat) : Nat := ds.foldl (fun n d => n * base + d) 0

/-- An integer, if it fits 64 bits. -/
def fits? (n : Int) : Option Int :=
  let half : Int := ↑(UInt64.size / 2)
  if -half ≤ n ∧ n < half then some n else none

/-- The sign of a number and the rest of its word. -/
def sign : List Char → Bool × List Char
  | '-' :: cs => (true, cs)
  | '+' :: cs => (false, cs)
  | cs => (false, cs)

/-- Decimal digits that do not begin with a needless zero. -/
def wholeDigits? (cs : List Char) : Option (List Nat) :=
  match digitsIn? 10 cs with
  | some (0 :: _ :: _) => none
  | r => r

/-- An integer word: decimal with an optional sign, or hexadecimal, octal or binary. -/
def integer? (word : List Char) : Option Int :=
  match word with
  | '0' :: 'x' :: ds => (digitsIn? 16 ds).bind fun ds => fits? (ofDigits 16 ds)
  | '0' :: 'o' :: ds => (digitsIn? 8 ds).bind fun ds => fits? (ofDigits 8 ds)
  | '0' :: 'b' :: ds => (digitsIn? 2 ds).bind fun ds => fits? (ofDigits 2 ds)
  | _ =>
    let (minus, rest) := sign word
    (wholeDigits? rest).bind fun ds =>
      let n : Int := ofDigits 10 ds
      fits? (if minus then -n else n)

/-- A word cut at the letter of its exponent. -/
def cutExponent : List Char → List Char × Option (List Char)
  | [] => ([], none)
  | c :: cs =>
    if c = 'e' ∨ c = 'E' then ([], some cs)
    else
      let (before, exponent) := cutExponent cs
      (c :: before, exponent)

/-- Whether a positive decimal rounds to a finite double. -/
def isFinite (digits : List Nat) (exponent : Int) : Bool :=
  let n := ofDigits 10 digits
  let magnitude := exponent + digits.length
  if n = 0 ∨ magnitude < 0 then true
  else if 400 + (digits.length : Int) < magnitude then false
  else
    let (num, den) := Number.overPowerOfTen n 1 (-exponent)
    (Number.roundRatio num den).isSome

/-- Whether a word is a float: a decimal with a fraction, an exponent or both, or one of the
special values. A positive one must be finite as a double. -/
def isFloat (word : List Char) : Bool :=
  let (minus, rest) := sign word
  if rest = ['i', 'n', 'f'] ∨ rest = ['n', 'a', 'n'] then true
  else
    let (mantissa, exponent) := cutExponent rest
    let exponent? : Option Int :=
      match exponent with
      | none => some 0
      | some cs =>
        let (down, ds) := sign cs
        (digitsIn? 10 ds).map fun ds =>
          let n : Int := ofDigits 10 ds
          if down then -n else n
    let digits? : Option (List Nat × Nat) :=
      match Text.splitFirst '.' mantissa with
      | none => if exponent.isNone then none else (wholeDigits? mantissa).map (·, 0)
      | some (whole, fraction) =>
        match wholeDigits? whole, digitsIn? 10 fraction with
        | some w, some f => some (w ++ f, f.length)
        | _, _ => none
    match digits?, exponent? with
    | some (digits, places), some e => minus || isFinite digits (e - places)
    | _, _ => false

/-- Exactly two digits, as a number. -/
def twoDigits? : List Char → Option (Nat × List Char)
  | a :: b :: rest =>
    match digitIn? 10 a, digitIn? 10 b with
    | some x, some y => some (x * 10 + y, rest)
    | _, _ => none
  | _ => none

/-- Two digits within bounds. -/
def field? (low high : Nat) (cs : List Char) : Option (List Char) :=
  (twoDigits? cs).bind fun (n, rest) => if low ≤ n ∧ n ≤ high then some rest else none

/-- A given character, and what follows it. -/
def mark? (c : Char) : List Char → Option (List Char)
  | [] => none
  | d :: rest => if d = c then some rest else none

/-- The days of a month. -/
def monthDays (year month : Nat) : Nat :=
  if month = 2 then
    if year % 4 = 0 ∧ (year % 100 ≠ 0 ∨ year % 400 = 0) then 29 else 28
  else if month = 4 ∨ month = 6 ∨ month = 9 ∨ month = 11 then 30
  else 31

/-- A date, and what follows it. -/
def afterDate? (cs : List Char) : Option (List Char) := do
  let (century, cs) ← twoDigits? cs
  let (rest, cs) ← twoDigits? cs
  let cs ← mark? '-' cs
  let (month, cs) ← twoDigits? cs
  if month < 1 ∨ 12 < month then none
  let cs ← mark? '-' cs
  let (day, cs) ← twoDigits? cs
  if day < 1 ∨ monthDays (century * 100 + rest) month < day then none
  return cs

/-- The fraction of a second, if there is one. -/
def afterFraction? (cs : List Char) : Option (List Char) :=
  match cs with
  | '.' :: rest =>
    match rest.takeWhile isDigit with
    | [] => none
    | _ => some (rest.dropWhile isDigit)
  | _ => some cs

/-- A time of day, and what follows it. -/
def afterTime? (cs : List Char) : Option (List Char) := do
  let cs ← field? 0 23 cs
  let cs ← mark? ':' cs
  let cs ← field? 0 59 cs
  let cs ← mark? ':' cs
  let cs ← field? 0 60 cs
  afterFraction? cs

/-- Whether a text is empty or a time offset. -/
def isOffset (cs : List Char) : Bool :=
  match cs with
  | [] => true
  | ['Z'] => true
  | ['z'] => true
  | c :: rest =>
    (c = '+' || c = '-') &&
      (do
        let cs ← field? 0 23 rest
        let cs ← mark? ':' cs
        field? 0 59 cs) == some []

/-- Whether a word is a date, a time of day, or both with an optional offset. -/
def isDate (word : List Char) : Bool :=
  match afterDate? word with
  | some [] => true
  | some (c :: rest) =>
    (c = 'T' || c = 't' || c = ' ') &&
      match afterTime? rest with
      | some offset => isOffset offset
      | none => false
  | none => afterTime? word == some []

/-- The value of a word. -/
def scalar? (word : List Char) : Option Toml :=
  if word = ['t', 'r', 'u', 'e'] then some (.bool true)
  else if word = ['f', 'a', 'l', 's', 'e'] then some (.bool false)
  else if isDate word then some (.date (String.ofList word))
  else if isFloat word then some (.float (String.ofList word))
  else (integer? word).map .int

/-- The word a text begins with, and what follows it. A blank may stand for the `T` between a
date and a time of day. -/
def readWord (cs : List Char) : List Char × List Char :=
  let word := cs.takeWhile isWordChar
  let rest := cs.dropWhile isWordChar
  match afterDate? word, rest with
  | some [], ' ' :: a :: b :: ':' :: more =>
    if isDigit a && isDigit b then
      (word ++ ' ' :: a :: b :: ':' :: more.takeWhile isWordChar, more.dropWhile isWordChar)
    else (word, rest)
  | _, _ => (word, rest)

end Rollout.Toml
