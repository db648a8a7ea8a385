import ColumnarRecords.Floating.Nearest
import ColumnarRecords.Text.Numeral

/-!
# Reading floating point numerals

Decimal numerals with an optional sign, point and exponent, and the names of infinity and of what
is no number in any case.
-/

namespace ColumnarRecords.Floating

/-- The number that digits continue from `acc`. -/
def digitsValue (acc : Nat) (digits : List Char) : Nat :=
  digits.foldl (fun n c => n * 10 + (c.toNat - '0'.toNat)) acc

/-- The character is an ASCII digit. -/
def isDigit (c : Char) : Bool := '0' ≤ c && c ≤ '9'

/-- The exponent after its mark, with an optional sign. -/
def readExponent? (s : List Char) : Option Int :=
  let unsigned (digits : List Char) : Option Nat :=
    if digits ≠ [] ∧ digits.all isDigit then some (digitsValue 0 digits) else none
  match s with
  | '+' :: digits => (unsigned digits).map Int.ofNat
  | '-' :: digits => (unsigned digits).map fun n => - Int.ofNat n
  | digits => (unsigned digits).map Int.ofNat

/-- The decimal that a numeral without sign writes: its digits, and the power of ten of the last of
them. -/
def readDecimal? (s : List Char) : Option (Nat × Int) :=
  let whole := s.takeWhile isDigit
  let rest := s.dropWhile isDigit
  let (fraction, rest) :=
    match rest with
    | '.' :: rest => (rest.takeWhile isDigit, rest.dropWhile isDigit)
    | rest => ([], rest)
  if whole ++ fraction = [] then none
  else
    let exponent? : Option Int :=
      match rest with
      | [] => some 0
      | 'e' :: rest => readExponent? rest
      | 'E' :: rest => readExponent? rest
      | _ => none
    exponent?.map fun e => (digitsValue 0 (whole ++ fraction), e - fraction.length)

/-- The magnitude bits of a numeral without sign. -/
def readMagnitude? (f : Format) (s : List Char) : Option Nat :=
  let lower := s.map Char.toLower
  if lower = "inf".toList ∨ lower = "infinity".toList then some f.infinityBits
  else if lower = "nan".toList then some (f.infinityBits + f.binade / 2)
  else (readDecimal? s).map fun d => ofDecimal f d.1 d.2

/-- The bits of a numeral. -/
def readBits? (f : Format) : List Char → Option Nat
  | '-' :: s => (readMagnitude? f s).map (f.signBit + ·)
  | '+' :: s => readMagnitude? f s
  | s => readMagnitude? f s

end ColumnarRecords.Floating
