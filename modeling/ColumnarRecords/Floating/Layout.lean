import ColumnarRecords.Floating.Shortest

/-!
# Floating point text

How a floating point number is laid out as text. The digits are the shortest that read back; a
`Layout` decides between the positional and the exponential form and on the details of both. The
layouts in use are values of that record beside their printers.
-/

namespace ColumnarRecords.Floating

/-- The decisions of a text form. -/
structure Layout where
  /-- The powers of ten of the first digit, from the first to the second, at which the form is
  positional; none if it always is. -/
  positional : Option (Int × Int)
  /-- A whole number in positional form ends in a point and a zero. -/
  keepsPoint : Bool
  /-- The text of infinity, without its sign. -/
  infinity : String
  /-- The text of what is no number. -/
  nan : String
deriving DecidableEq, Repr

namespace Layout

/-- The layout of numbers of 64 bits in JSON. -/
def json64 : Layout := ⟨some (-5, 15), true, "Infinity", "NaN"⟩

/-- The layout of numbers of 32 bits in JSON. -/
def json32 : Layout := ⟨some (-6, 12), true, "Infinity", "NaN"⟩

/-- The layout of numbers without exponent. -/
def plain : Layout := ⟨none, false, "inf", "NaN"⟩

/-- The positional form of digits whose first stands for `10 ^ leading`. -/
def positionalText (keepsPoint : Bool) (digits : List Char) (leading : Int) : List Char :=
  if leading < 0 then
    '0' :: '.' :: List.replicate (-leading - 1).toNat '0' ++ digits
  else
    let whole := leading.toNat + 1
    if digits.length ≤ whole then
      digits ++ List.replicate (whole - digits.length) '0' ++
        (if keepsPoint then ['.', '0'] else [])
    else digits.take whole ++ '.' :: digits.drop whole

/-- The exponential form of digits whose first stands for `10 ^ leading`. -/
def exponentialText (digits : List Char) (leading : Int) : List Char :=
  let mantissa :=
    match digits with
    | [] => []
    | [d] => [d]
    | d :: rest => d :: '.' :: rest
  mantissa ++ 'e' :: (if leading < 0 then '-' else '+') :: Nat.toDigits 10 leading.natAbs

/-- The text of a decimal that is not negative. -/
def decimalText (l : Layout) (d : Decimal) : List Char :=
  let digits := Nat.toDigits 10 d.digits
  let leading := d.exponent + digits.length - 1
  match l.positional with
  | none => positionalText l.keepsPoint digits leading
  | some (low, high) =>
    if low ≤ leading ∧ leading ≤ high then positionalText l.keepsPoint digits leading
    else exponentialText digits leading

/-- The text of a number. -/
def text (l : Layout) (f : Format) : Number → String
  | .nan => l.nan
  | .infinite negative => (if negative then "-" else "") ++ l.infinity
  | .finite negative significand exponent =>
    let d := if significand = 0 then ⟨0, 0⟩ else shortest f significand exponent
    (if negative then "-" else "") ++ String.ofList (l.decimalText d)

end Layout

end ColumnarRecords.Floating
