import ColumnarRecords.Power

/-!
# Moments and spans of time

The text of a moment, given by seconds and nanoseconds since the beginning of 1970 in universal
time, and of a span of time. Fractions of a second have no digit, three, six or nine.
-/

namespace ColumnarRecords.Time

/-- The number of nanoseconds in a second. -/
def nanosPerSecond : Nat := 10 ^ 9

/-- Decimal digits, filled up with zeros to a width. -/
def padded (width n : Nat) : String :=
  let digits := Nat.toDigits 10 n
  String.ofList (List.replicate (width - digits.length) '0' ++ digits)

/-- The fraction of a second that nanoseconds are, with its point, in as few groups of three digits
as hold it. -/
def fraction (nanos : Nat) : String :=
  if nanos = 0 then ""
  else if nanos % 1000000 = 0 then "." ++ padded 3 (nanos / 1000000)
  else if nanos % 1000 = 0 then "." ++ padded 6 (nanos / 1000)
  else "." ++ padded 9 nanos

/-- A day of the calendar. -/
structure Date where
  /-- The year. -/
  year : Int
  /-- The month from 1. -/
  month : Nat
  /-- The day of the month from 1. -/
  day : Nat
deriving DecidableEq, Repr

/-- The date of a day counted from the first of January 1970. Years are counted from March, so that
the day that leap years have comes last; they repeat after 400. -/
def Date.ofDays (days : Int) : Date :=
  let fromMarch := days + 719468
  let era := fromMarch / 146097
  let dayOfEra := (fromMarch % 146097).toNat
  let yearOfEra :=
    (dayOfEra - dayOfEra / 1460 + dayOfEra / 36524 - dayOfEra / 146096) / 365
  let dayOfYear := dayOfEra - (365 * yearOfEra + yearOfEra / 4 - yearOfEra / 100)
  let shifted := (5 * dayOfYear + 2) / 153
  let month := if shifted < 10 then shifted + 3 else shifted - 9
  { year := era * 400 + yearOfEra + (if month ≤ 2 then 1 else 0)
    month := month
    day := dayOfYear - (153 * shifted + 2) / 5 + 1 }

/-- The text of a year: four digits at least, and a sign before a year outside `0` to `9999`. -/
def yearText (year : Int) : String :=
  if 9999 < year then "+" ++ toString year
  else if year < 0 then "-" ++ padded 4 year.natAbs
  else padded 4 year.toNat

/-- The text of a moment. -/
def momentText (seconds nanos : Int) : String :=
  let total := seconds * nanosPerSecond + nanos
  let seconds := total / nanosPerSecond
  let date := Date.ofDays (seconds / 86400)
  let time := (seconds % 86400).toNat
  yearText date.year ++ "-" ++ padded 2 date.month ++ "-" ++ padded 2 date.day ++ "T" ++
    padded 2 (time / 3600) ++ ":" ++ padded 2 (time / 60 % 60) ++ ":" ++ padded 2 (time % 60) ++
    fraction (total % nanosPerSecond).toNat ++ "Z"

/-- The seconds are in the years `1` to `9999`. The nanoseconds, which count from there, may lead
out of them. -/
def isMoment (seconds : Int) : Bool :=
  -62135596800 ≤ seconds && seconds ≤ 253402300799

/-- The text of a span. A sign stands before it if one of the parts has one. -/
def spanText (seconds nanos : Int) : String :=
  let total := (seconds * nanosPerSecond + nanos).natAbs
  (if seconds < 0 ∨ nanos < 0 then "-" else "") ++ toString (total / nanosPerSecond) ++
    fraction (total % nanosPerSecond) ++ "s"

/-- The span is of at most ten thousand years, and the nanoseconds are less than a second. -/
def isSpan (seconds nanos : Int) : Bool :=
  seconds.natAbs ≤ 315576000000 && nanos.natAbs < nanosPerSecond

end ColumnarRecords.Time
