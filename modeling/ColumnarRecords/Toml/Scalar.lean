import ColumnarRecords.Settings.Setting
import ColumnarRecords.Toml.Moment
import ColumnarRecords.Text.Escape
import ColumnarRecords.Floating.Numeral

/-!
# Plain values of settings files

Truth values, whole numbers of 64 bits, floating point numbers and moments, as words write them.
-/

namespace ColumnarRecords.Toml

open Text.Escape (isDigitIn number)

/-- The digits of a numeral, without the underscores that may stand between two of them. -/
def digits? (base : Nat) : List Char → Option (List Char)
  | [] => none
  | [c] => if isDigitIn base c then some [c] else none
  | c :: '_' :: rest => if isDigitIn base c then (digits? base rest).map (c :: ·) else none
  | c :: rest => if isDigitIn base c then (digits? base rest).map (c :: ·) else none

/-- The digits of a decimal numeral without a zero in front of another digit. -/
def wholeDigits? (s : List Char) : Option (List Char) :=
  (digits? 10 s).filter fun digits => digits.head? != some '0' || digits.length == 1

/-- The largest whole number. -/
def maxWhole : Nat := 2 ^ 63 - 1

/-- The whole number of a base, written without sign. -/
def based? (base : Nat) (s : List Char) : Option Int :=
  match digits? base s with
  | none => none
  | some digits => if number base digits ≤ maxWhole then some (number base digits) else none

/-- The decimal number of a sign. -/
def decimal? (negative : Bool) (s : List Char) : Option Int :=
  match wholeDigits? s with
  | none => none
  | some digits =>
    let n := number 10 digits
    if negative then if n ≤ maxWhole + 1 then some (- (n : Int)) else none
    else if n ≤ maxWhole then some n
    else none

/-- The digits of an exponent, after its sign. -/
def exponent? (s : List Char) : Option (List Char) :=
  let sign := (s.take 1).filter fun c => c = '+' || c = '-'
  (digits? 10 (s.drop sign.length)).map (sign ++ ·)

/-- The plain numeral of a floating point number without sign, which has a fraction or an exponent
after its whole part. -/
def numeral? (s : List Char) : Option (List Char) :=
  let isPart (c : Char) : Bool := Floating.isDigit c || c = '_'
  let isMark (c : Char) : Bool := c = 'e' || c = 'E'
  match wholeDigits? (s.takeWhile isPart), s.dropWhile isPart with
  | some whole, '.' :: rest =>
    match digits? 10 (rest.takeWhile isPart), rest.dropWhile isPart with
    | some fraction, [] => some (whole ++ '.' :: fraction)
    | some fraction, c :: rest =>
      if isMark c then (exponent? rest).map fun e => whole ++ '.' :: fraction ++ 'e' :: e else none
    | none, _ => none
  | some whole, c :: rest =>
    if isMark c then (exponent? rest).map fun e => whole ++ 'e' :: e else none
  | _, _ => none

/-- The bits of a floating point number without sign. A numeral has to be in the range of the
finite ones. -/
def floatBits? (s : List Char) : Option Nat :=
  if s = "inf".toList ∨ s = "nan".toList then Floating.readMagnitude? .binary64 s
  else
    ((numeral? s).bind (Floating.readMagnitude? .binary64)).filter
      (· < Floating.Format.binary64.infinityBits)

/-- The number after an optional sign. -/
def signed? (negative : Bool) (s : List Char) : Option Setting :=
  match decimal? negative s with
  | some n => some (.int n)
  | none =>
    (floatBits? s).map fun bits =>
      .float (if negative then Floating.Format.binary64.signBit + bits else bits)

/-- The value that the characters of a word are. -/
def scalar? (s : List Char) : Option Setting :=
  if s = "true".toList then some (.bool true)
  else if s = "false".toList then some (.bool false)
  else
    match Moment.read? s with
    | some moment => some (.text moment)
    | none =>
      match s with
      | '0' :: 'x' :: rest => (based? 16 rest).map .int
      | '0' :: 'o' :: rest => (based? 8 rest).map .int
      | '0' :: 'b' :: rest => (based? 2 rest).map .int
      | '+' :: rest => signed? false rest
      | '-' :: rest => signed? true rest
      | rest => signed? false rest

end ColumnarRecords.Toml
