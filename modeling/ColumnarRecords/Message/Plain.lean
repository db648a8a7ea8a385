import ColumnarRecords.Descriptor.Basic
import ColumnarRecords.Text.Utf8

/-!
# Plain values on the wire

How each kind of plain values is coded: as a varint, as four or eight bytes, or as delimited text
or bytes; and which value a word stands for.
-/

namespace ColumnarRecords

open Descriptor

/-- How a plain value is coded, and which value a word stands for. -/
inductive Coding where
  /-- A varint. -/
  | varint (toValue : UInt64 → Value)
  /-- Four bytes. -/
  | fixed32 (toValue : UInt32 → Value)
  /-- Eight bytes. -/
  | fixed64 (toValue : UInt64 → Value)
  /-- Delimited UTF-8. -/
  | text
  /-- Delimited bytes. -/
  | bytes

/-- The signed word of the low 32 bits. -/
def low32 (n : UInt64) : Int32 := n.toUInt32.toInt32

/-- How a kind is coded. Words too long for the kind are cut. -/
def Descriptor.Scalar.coding : Scalar → Coding
  | .double => .fixed64 .f64
  | .float => .fixed32 .f32
  | .int64 => .varint fun n => .i64 n.toInt64
  | .uint64 => .varint .u64
  | .int32 => .varint fun n => .i32 (low32 n)
  | .fixed64 => .fixed64 .u64
  | .fixed32 => .fixed32 .u32
  | .bool => .varint fun n => .bool (n != 0)
  | .string => .text
  | .bytes => .bytes
  | .uint32 => .varint fun n => .u32 n.toUInt32
  | .sfixed32 => .fixed32 fun n => .i32 n.toInt32
  | .sfixed64 => .fixed64 fun n => .i64 n.toInt64
  | .sint32 => .varint fun n => .i32 (Wire.unzigzag32 n.toUInt32)
  | .sint64 => .varint fun n => .i64 (Wire.unzigzag64 n)

/-- How an enum value is coded. -/
def enumCoding : Coding :=
  .varint fun n => .enum (low32 n)

/-- The bytes of a plain value without its key; none if it is not of the kind. -/
def Descriptor.Scalar.encode : Scalar → Value → List UInt8
  | .double, .f64 n => Wire.encodeFixed64 n
  | .float, .f32 n => Wire.encodeFixed32 n
  | .int64, .i64 n => Wire.encodeVarint n.toUInt64
  | .uint64, .u64 n => Wire.encodeVarint n
  | .int32, .i32 n => Wire.encodeVarint (Wire.signExtend n)
  | .fixed64, .u64 n => Wire.encodeFixed64 n
  | .fixed32, .u32 n => Wire.encodeFixed32 n
  | .bool, .bool b => Wire.encodeVarint (if b then 1 else 0)
  | .string, .string s => Wire.encodeDelimited (Text.Utf8.encode s)
  | .bytes, .bytes content => Wire.encodeDelimited content
  | .uint32, .u32 n => Wire.encodeVarint n.toUInt64
  | .sfixed32, .i32 n => Wire.encodeFixed32 n.toUInt32
  | .sfixed64, .i64 n => Wire.encodeFixed64 n.toUInt64
  | .sint32, .i32 n => Wire.encodeVarint (Wire.zigzag32 n).toUInt64
  | .sint64, .i64 n => Wire.encodeVarint (Wire.zigzag64 n)
  | _, _ => []

/-- The bytes of an enum value without its key; none if it is no enum value. -/
def encodeEnum : Value → List UInt8
  | .enum n => Wire.encodeVarint (Wire.signExtend n)
  | _ => []

end ColumnarRecords
