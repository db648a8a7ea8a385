import ColumnarRecords.Floating.Format

/-!
# Rounding to nearest

The bit pattern nearest to an exact number, a tie going to the even significand, and the whole
number nearest to a floating point number.
-/

namespace ColumnarRecords.Floating

/-- The quotient rounded to nearest, a half to the even neighbour. -/
def roundDivEven (numerator denominator : Nat) : Nat :=
  let q := numerator / denominator
  let twice := 2 * (numerator % denominator)
  if twice < denominator then q
  else if denominator < twice then q + 1
  else if q % 2 = 0 then q
  else q + 1

/-- The quotient rounded to nearest, a half up. -/
def roundDivUp (numerator denominator : Nat) : Nat :=
  (2 * numerator + denominator) / (2 * denominator)

/-- The whole number of units `2 ^ exponent` nearest to a quotient. -/
def roundAt (numerator denominator : Nat) (exponent : Int) : Nat :=
  roundDivEven (numerator * 2 ^ (-exponent).toNat) (denominator * 2 ^ exponent.toNat)

/-- The magnitude bits nearest to a quotient of positive numbers. -/
def ofRatio (f : Format) (numerator denominator : Nat) : Nat :=
  let exponent : Int := numerator.log2 - denominator.log2 - (f.precision - 1)
  let isBelow :=
    numerator * 2 ^ (-exponent).toNat < f.binade * (denominator * 2 ^ exponent.toNat)
  let exponent := max (if isBelow then exponent - 1 else exponent) f.minExponent
  let bits := (exponent - f.minExponent).toNat * f.binade + roundAt numerator denominator exponent
  min bits f.infinityBits

/-- The magnitude bits nearest to `digits * 10 ^ exponent`. Exponents far beyond the range are
decided before any power is computed. -/
def ofDecimal (f : Format) (digits : Nat) (exponent : Int) : Nat :=
  let bound : Int := 2 ^ f.exponentBits
  if digits = 0 then 0
  else if bound < exponent then f.infinityBits
  else if exponent + digits.log2 < -bound then 0
  else ofRatio f (digits * 10 ^ exponent.toNat) (10 ^ (-exponent).toNat)

/-- The whole number nearest to a magnitude, a half up. -/
def nearestWhole (significand : Nat) (exponent : Int) : Nat :=
  roundDivUp (significand * 2 ^ exponent.toNat) (2 ^ (-exponent).toNat)

/-- The number that a floating point number is in a range of whole numbers from zero: the nearest
one, a half away from zero, and the end of the range beyond it; zero if it is no number. -/
def Number.saturate (max : Nat) : Number → Nat
  | .nan => 0
  | .infinite true => 0
  | .infinite false => max
  | .finite true _ _ => 0
  | .finite false significand exponent => min max (nearestWhole significand exponent)

end ColumnarRecords.Floating
