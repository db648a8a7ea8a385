import ColumnarRecords.Power

/-!
# Bounded decimal numerals

Reading a numeral of ASCII digits into a number that has to fit a word. The digits are taken from
the left and the first one that cannot be used decides the fault, so an overlong numeral is
`tooLarge` even when something else follows the digit at which it overflows.
-/

namespace ColumnarRecords.Text

/-- Why a text is not a numeral of the wanted range. -/
inductive Numeral.Fault where
  /-- There is no character at all. -/
  | empty
  /-- A character is not a digit, or a sign stands alone or where none is allowed. -/
  | invalidDigit
  /-- The number exceeds the range. -/
  | tooLarge
  /-- The number is below the range. -/
  | tooSmall
deriving DecidableEq, Repr

namespace Numeral

/-- The wording of a fault. -/
def Fault.message : Fault → String
  | .empty => "cannot parse integer from empty string"
  | .invalidDigit => "invalid digit found in string"
  | .tooLarge => "number too large to fit in target type"
  | .tooSmall => "number too small to fit in target type"

/-- The value of an ASCII digit. -/
def digit? (c : Char) : Option Nat :=
  if '0' ≤ c ∧ c ≤ '9' then some (c.toNat - '0'.toNat) else none

/-- The value of an ASCII digit in a base of at most sixteen. -/
def digitIn? (base : Nat) (c : Char) : Option Nat :=
  let value :=
    if '0' ≤ c ∧ c ≤ '9' then c.toNat - '0'.toNat
    else if 'a' ≤ c ∧ c ≤ 'z' then c.toNat - 'a'.toNat + 10
    else if 'A' ≤ c ∧ c ≤ 'Z' then c.toNat - 'A'.toNat + 10
    else base
  if value < base then some value else none

/-- The magnitude that digits of a base continue from `acc`, at most `max`; `excess` is the fault of
exceeding it. -/
def readDigits (base max : Nat) (excess : Fault) : Nat → List Char → Except Fault Nat
  | acc, [] => .ok acc
  | acc, c :: rest =>
    match digitIn? base c with
    | none => .error .invalidDigit
    | some d =>
      if acc * base + d ≤ max then readDigits base max excess (acc * base + d) rest
      else .error excess

/-- The number from `0` to `max` written in a base, after an optional plus sign. -/
def readNat (base max : Nat) : List Char → Except Fault Nat
  | [] => .error .empty
  | ['+'] => .error .invalidDigit
  | '+' :: digits => readDigits base max .tooLarge 0 digits
  | digits => readDigits base max .tooLarge 0 digits

/-- The number from `-(max + 1)` to `max` written in a base, after an optional sign: the range of a
signed word whose largest number is `max`. -/
def readInt (base max : Nat) : List Char → Except Fault Int
  | [] => .error .empty
  | ['+'] => .error .invalidDigit
  | ['-'] => .error .invalidDigit
  | '+' :: digits => (readDigits base max .tooLarge 0 digits).map Int.ofNat
  | '-' :: digits => (readDigits base (max + 1) .tooSmall 0 digits).map fun n => - Int.ofNat n
  | digits => (readDigits base max .tooLarge 0 digits).map Int.ofNat

/-- The largest number of an unsigned word of 64 bits. -/
def maxWord : Nat := 2 ^ 64 - 1

end Numeral

end ColumnarRecords.Text
