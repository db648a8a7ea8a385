import ColumnarRecords.Power

/-!
# Binary floating point

The reading of a bit pattern as a number. A finite number is a significand times a power of two;
the formats of 32 and 64 bits differ in the sizes of the two parts alone. Everything is exact: no
operation here or in the modules that build on this one computes with rounded numbers.
-/

namespace ColumnarRecords.Floating

/-- The sizes of the parts of a bit pattern. -/
structure Format where
  /-- The bits of the significand, the leading one included. -/
  precision : Nat
  /-- The bits of the exponent. -/
  exponentBits : Nat
deriving DecidableEq, Repr

namespace Format

/-- The format of 32 bits. -/
def binary32 : Format := ⟨24, 8⟩

/-- The format of 64 bits. -/
def binary64 : Format := ⟨53, 11⟩

/-- The number of significands that share an exponent: the weight of the lowest exponent bit. -/
def binade (f : Format) : Nat := 2 ^ (f.precision - 1)

/-- The exponent of the lowest bit of the smallest numbers. -/
def minExponent (f : Format) : Int := 3 - 2 ^ (f.exponentBits - 1) - f.precision

/-- The magnitude bits of infinity. -/
def infinityBits (f : Format) : Nat := (2 ^ f.exponentBits - 1) * f.binade

/-- The weight of the sign bit. -/
def signBit (f : Format) : Nat := 2 ^ f.exponentBits * f.binade

end Format

/-- What a bit pattern stands for. -/
inductive Number where
  /-- No number. -/
  | nan
  /-- An infinity, negative or not. -/
  | infinite (negative : Bool)
  /-- A significand times a power of two, negative or not. -/
  | finite (negative : Bool) (significand : Nat) (exponent : Int)
deriving DecidableEq, Repr

/-- The number of a bit pattern. -/
def ofBits (f : Format) (bits : Nat) : Number :=
  let negative := f.signBit ≤ bits
  let magnitude := bits % f.signBit
  if f.infinityBits < magnitude then .nan
  else if magnitude = f.infinityBits then .infinite negative
  else if magnitude < f.binade then .finite negative magnitude f.minExponent
  else .finite negative (f.binade + magnitude % f.binade)
    (f.minExponent + magnitude / f.binade - 1)

end ColumnarRecords.Floating
