/-!
Moments as text: the Gregorian date and the time of day in universal time, to the millisecond.
-/

namespace Rollout.Utc

/-- A day of the Gregorian calendar. -/
structure Date where
  year : Nat
  month : Nat
  day : Nat
deriving DecidableEq, Repr

/-- The days from 1 March of the year 0 to 1 January 1970. -/
def daysBeforeEpoch : Nat := 719468

/-- The day that is so many days after 1 January 1970. Years are counted from March here, so
that a leap day ends a year, and in cycles of 400 years, which all have the same length. -/
def dateOf (day : Nat) : Date :=
  let n := day + daysBeforeEpoch
  let cycle := n / 146097
  let inCycle := n % 146097
  let year := (inCycle - inCycle / 1460 + inCycle / 36524 - inCycle / 146096) / 365
  let inYear := inCycle - (365 * year + year / 4 - year / 100)
  let month := (5 * inYear + 2) / 153
  let inMonth := inYear - (153 * month + 2) / 5
  let inNextYear := if month < 10 then 0 else 1
  ⟨400 * cycle + year + inNextYear, (month + 2) % 12 + 1, inMonth + 1⟩

/-- A number with zeros in front of it. -/
def padded (width n : Nat) : String :=
  let digits := toString n
  String.ofList (List.replicate (width - digits.length) '0') ++ digits

/-- The text of the moment that is so many milliseconds after the beginning of 1970. -/
def text (milliseconds : Nat) : String :=
  let seconds := milliseconds / 1000
  let date := dateOf (seconds / 86400)
  let inDay := seconds % 86400
  padded 4 date.year ++ "-" ++ padded 2 date.month ++ "-" ++ padded 2 date.day ++ "T" ++
    padded 2 (inDay / 3600) ++ ":" ++ padded 2 (inDay / 60 % 60) ++ ":" ++
    padded 2 (inDay % 60) ++ "." ++ padded 3 (milliseconds % 1000) ++ "Z"

end Rollout.Utc
