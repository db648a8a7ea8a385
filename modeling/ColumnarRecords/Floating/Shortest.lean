import ColumnarRecords.Floating.Format

/-!
# The shortest decimal

Of the decimals that round to a given floating point number, those with the fewest digits, and of
these the nearest to the number; of two equally near the even one. For each count of digits the
two neighbours of the number on the grid of that many digits are tried; if any decimal of a count
rounds to the number, one of these two does.
-/

namespace ColumnarRecords.Floating

/-- A decimal: digits, and the power of ten of the last of them. -/
structure Decimal where
  /-- The digits, as a number. -/
  digits : Nat
  /-- The power of ten of the last digit. -/
  exponent : Int
deriving DecidableEq, Repr

/-- The decimal without zeros at its end. -/
def Decimal.strip (d : Decimal) : Decimal :=
  if 0 < d.digits ∧ d.digits % 10 = 0 then Decimal.strip ⟨d.digits / 10, d.exponent + 1⟩ else d
termination_by d.digits
decreasing_by omega

/-- A positive number and the reals that round to it, as multiples of a common unit: the number,
and the two ends of the interval. The unit is the reciprocal of `unit`. -/
structure Interval where
  /-- The number of units in one. -/
  unit : Nat
  /-- The lower end. -/
  low : Nat
  /-- The number itself. -/
  value : Nat
  /-- The upper end. -/
  high : Nat
  /-- The ends belong to the interval. -/
  closed : Bool
deriving DecidableEq, Repr

/-- The reals that round to a positive number. The gap below a power of two is half the one above
it, unless the number is of the smallest exponent. -/
def interval (f : Format) (significand : Nat) (exponent : Int) : Interval :=
  let below := if significand = f.binade ∧ f.minExponent < exponent then 1 else 2
  let scale := 2 ^ exponent.toNat
  { unit := 4 * 2 ^ (-exponent).toNat
    low := (4 * significand - below) * scale
    value := 4 * significand * scale
    high := (4 * significand + 2) * scale
    closed := significand % 2 = 0 }

namespace Interval

/-- The multiple of `10 ^ exponent` lies in the interval. -/
def contains (i : Interval) (digits : Nat) (exponent : Int) : Bool :=
  let x := digits * i.unit * 10 ^ exponent.toNat
  let low := i.low * 10 ^ (-exponent).toNat
  let high := i.high * 10 ^ (-exponent).toNat
  if i.closed then low ≤ x && x ≤ high else low < x && x < high

/-- The nearer of the two neighbours of the number among the multiples of `10 ^ exponent` that
lies in the interval. -/
def candidate? (i : Interval) (exponent : Int) : Option Decimal :=
  let grid := i.unit * 10 ^ exponent.toNat
  let value := i.value * 10 ^ (-exponent).toNat
  let floor := value / grid
  let twice := 2 * (value % grid)
  let preferUp := grid < twice || (grid == twice && floor % 2 == 1)
  match i.contains floor exponent && floor != 0, i.contains (floor + 1) exponent with
  | true, true => some ⟨if preferUp then floor + 1 else floor, exponent⟩
  | true, false => some ⟨floor, exponent⟩
  | false, true => some ⟨floor + 1, exponent⟩
  | false, false => none

/-- The power of ten of the number's first digit, searched downward. -/
def leadingExponent (i : Interval) : (tries : Nat) → Int → Int
  | 0, e => e
  | tries + 1, e =>
    if i.unit * 10 ^ e.toNat ≤ i.value * 10 ^ (-e).toNat then e
    else leadingExponent i tries (e - 1)

/-- The first candidate among the grids of ever more digits, starting at a power of ten. -/
def firstCandidate (i : Interval) : (tries : Nat) → Int → Decimal
  | 0, e => ⟨i.value * 10 ^ (-e).toNat / (i.unit * 10 ^ e.toNat), e⟩
  | tries + 1, e =>
    match i.candidate? e with
    | some d => d
    | none => firstCandidate i tries (e - 1)

end Interval

/-- The number of decimal digits of a number. -/
def decimalLength (n : Nat) : Nat := (Nat.toDigits 10 n).length

/-- The shortest decimal of a positive number of a format: seventeen digits suffice for 64
bits. -/
def shortest (f : Format) (significand : Nat) (exponent : Int) : Decimal :=
  let i := interval f significand exponent
  let leading := i.leadingExponent 3 (decimalLength i.value - decimalLength i.unit + 1)
  (i.firstCandidate 17 leading).strip

end ColumnarRecords.Floating
