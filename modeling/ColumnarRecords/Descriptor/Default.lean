import ColumnarRecords.Descriptor.Declaration
import ColumnarRecords.Descriptor.Basic
import ColumnarRecords.Floating.Numeral
import ColumnarRecords.Text.Escape

/-!
# Declared default values

The text of a default value is read by the kind of its field.
-/

namespace ColumnarRecords.Descriptor

open Text

/-- The number from `0` to `max` that a decimal numeral writes. -/
def natDefault? (max : Nat) (text : String) : Option Nat :=
  (Numeral.readNat 10 max text.toList).toOption

/-- The number of a signed range with the largest number `max` that a decimal numeral writes. -/
def intDefault? (max : Nat) (text : String) : Option Int :=
  (Numeral.readInt 10 max text.toList).toOption

/-- The default value that a text declares for a kind of plain values. -/
def Scalar.default? (text : String) : Scalar → Option Value
  | .double => (Floating.readBits? .binary64 text.toList).map fun n => .f64 (UInt64.ofNat n)
  | .float => (Floating.readBits? .binary32 text.toList).map fun n => .f32 (UInt32.ofNat n)
  | .int32 | .sint32 | .sfixed32 =>
    (intDefault? (2 ^ 31 - 1) text).map fun n => .i32 (Int32.ofInt n)
  | .int64 | .sint64 | .sfixed64 =>
    (intDefault? (2 ^ 63 - 1) text).map fun n => .i64 (Int64.ofInt n)
  | .uint32 | .fixed32 => (natDefault? (2 ^ 32 - 1) text).map fun n => .u32 (UInt32.ofNat n)
  | .uint64 | .fixed64 => (natDefault? (2 ^ 64 - 1) text).map fun n => .u64 (UInt64.ofNat n)
  | .bool =>
    if text = "true" then some (.bool true)
    else if text = "false" then some (.bool false)
    else none
  | .string => some (.string text)
  | .bytes => (Escape.decodePlain? text.toList).map .bytes

/-- The default value that a name declares for an enum. -/
def enumDefault? (text : String) (e : Declaration.EnumType) : Option Value :=
  (e.values.find? (·.name == text)).map fun v => .enum (Int32.ofInt v.number)

end ColumnarRecords.Descriptor
