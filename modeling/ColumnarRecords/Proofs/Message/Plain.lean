import ColumnarRecords.Column.Value
import ColumnarRecords.Proofs.Message.Merge
import ColumnarRecords.Proofs.Message.Typed
import ColumnarRecords.Proofs.Wire.RoundTrip

/-!
# Plain values are read back

A plain value is read back from what is written for it, whatever follows: by the coding of its kind
from an encoded message (`Scalar.read_encode`), and so from a column too, since what a coding reads
there is the same (`Column.readCoded_of_read`).
-/

namespace ColumnarRecords

open Descriptor Wire

/-- A signed word of 32 bits is the low half of the word that its sign is extended to. -/
theorem low32_signExtend (n : Int32) : low32 (signExtend n) = n := by
  unfold low32 signExtend
  apply Int32.toBitVec_inj.1
  apply BitVec.eq_of_getLsbD_eq
  intro i hi
  -- The bits that the extension adds are above those that are kept.
  simp [BitVec.getLsbD_signExtend, hi]
  omega

/-- A word that is coded as a varint. -/
theorem Coding.read_encodeVarint (toValue : UInt64 → Value) (n : UInt64) (rest : List UInt8) :
    (Coding.varint toValue).read (encodeVarint n ++ rest) = .ok (toValue n, rest) := by
  rw [Coding.read, andThen, readVarint_encodeVarint]

/-- A word that is coded as four bytes. -/
theorem Coding.read_encodeFixed32 (toValue : UInt32 → Value) (n : UInt32) (rest : List UInt8) :
    (Coding.fixed32 toValue).read (encodeFixed32 n ++ rest) = .ok (toValue n, rest) := by
  rw [Coding.read, andThen, readFixed32_encodeFixed32]

/-- A word that is coded as eight bytes. -/
theorem Coding.read_encodeFixed64 (toValue : UInt64 → Value) (n : UInt64) (rest : List UInt8) :
    (Coding.fixed64 toValue).read (encodeFixed64 n ++ rest) = .ok (toValue n, rest) := by
  rw [Coding.read, andThen, readFixed64_encodeFixed64]

/-- What is delimited is shorter than what it is delimited to. -/
theorem length_le_encodeDelimited (bytes : List UInt8) :
    bytes.length ≤ (encodeDelimited bytes).length := by
  unfold encodeDelimited
  rw [List.length_append]
  exact Nat.le_add_left _ _

/-- A plain value is read back from its bytes. -/
theorem Descriptor.Scalar.read_encode {s : Scalar} {v : Value} (h : s.Accepts v)
    (hlen : (s.encode v).length < 2 ^ 64) (rest : List UInt8) :
    s.coding.read (s.encode v ++ rest) = .ok (v, rest) := by
  -- One case is left for each kind, that of the values it accepts.
  cases s <;> cases v <;> first | exact h.elim | skip
  case double.f64 bits => exact Coding.read_encodeFixed64 .f64 bits rest
  case float.f32 bits => exact Coding.read_encodeFixed32 .f32 bits rest
  case int64.i64 n =>
    have hread := Coding.read_encodeVarint (fun n => .i64 n.toInt64) n.toUInt64 rest
    rwa [Int64.toInt64_toUInt64] at hread
  case uint64.u64 n => exact Coding.read_encodeVarint .u64 n rest
  case int32.i32 n =>
    have hread := Coding.read_encodeVarint (fun n => .i32 (low32 n)) (signExtend n) rest
    rwa [low32_signExtend] at hread
  case fixed64.u64 n => exact Coding.read_encodeFixed64 .u64 n rest
  case fixed32.u32 n => exact Coding.read_encodeFixed32 .u32 n rest
  case bool.bool b =>
    have hread := Coding.read_encodeVarint (fun n => .bool (n != 0)) (if b then 1 else 0) rest
    cases b <;> exact hread
  case string.string text =>
    have hshort := Nat.lt_of_le_of_lt (length_le_encodeDelimited (Text.Utf8.encode text)) hlen
    rw [Scalar.encode, Scalar.coding, Coding.read, andThen, readText_encode hshort]
  case bytes.bytes content =>
    have hshort := Nat.lt_of_le_of_lt (length_le_encodeDelimited content) hlen
    rw [Scalar.encode, Scalar.coding, Coding.read, andThen, readDelimited_encodeDelimited hshort]
  case uint32.u32 n =>
    have hread := Coding.read_encodeVarint (fun n => .u32 n.toUInt32) n.toUInt64 rest
    rwa [UInt32.toUInt32_toUInt64] at hread
  case sfixed32.i32 n =>
    have hread := Coding.read_encodeFixed32 (fun n => .i32 n.toInt32) n.toUInt32 rest
    rwa [Int32.toInt32_toUInt32] at hread
  case sfixed64.i64 n =>
    have hread := Coding.read_encodeFixed64 (fun n => .i64 n.toInt64) n.toUInt64 rest
    rwa [Int64.toInt64_toUInt64] at hread
  case sint32.i32 n =>
    have hread := Coding.read_encodeVarint (fun n => .i32 (unzigzag32 n.toUInt32))
      (zigzag32 n).toUInt64 rest
    rwa [UInt32.toUInt32_toUInt64, unzigzag32_zigzag32] at hread
  case sint64.i64 n =>
    have hread := Coding.read_encodeVarint (fun n => .i64 (unzigzag64 n)) (zigzag64 n) rest
    rwa [unzigzag64_zigzag64] at hread

/-- An enum value is read back from its bytes. -/
theorem enumCoding_read (n : Int32) (rest : List UInt8) :
    enumCoding.read (encodeEnum (.enum n) ++ rest) = .ok (.enum n, rest) := by
  have hread := Coding.read_encodeVarint (fun n => .enum (low32 n)) (signExtend n) rest
  rwa [low32_signExtend] at hread

namespace Column

/-- What is delimited is read from a column as from an encoded message. -/
theorem readDelimited_of_read {input : List UInt8} {r : List UInt8 × List UInt8}
    (h : Wire.readDelimited input = .ok r) : readDelimited input = .ok r := by
  rw [readDelimited_eq_andThen] at h
  obtain ⟨n, rest, hn, h⟩ := andThen_eq_ok.1 h
  split at h
  · cases h
  · rename_i hlen
    obtain rfl := Except.ok.inj h
    simp only [readDelimited, readVarint, hn, readBytes]
    rw [if_neg hlen]
    rfl

/-- A coded value is read from a column as from an encoded message. -/
theorem readCoded_of_read {coding : Coding} {input : List UInt8} {r : Value × List UInt8}
    (h : coding.read input = .ok r) : readCoded coding input = .ok r := by
  -- Both readers take the same bytes; they differ in the faults only, which a success has none of.
  cases coding with
  | varint toValue =>
    obtain ⟨n, rest, hn, h⟩ := andThen_eq_ok.1 h
    obtain rfl := Except.ok.inj h
    simp only [readCoded, readVarint, hn]
  | fixed32 toValue =>
    obtain ⟨n, rest, hn, h⟩ := andThen_eq_ok.1 h
    unfold Wire.readFixed32 at hn
    split at hn
    · cases hn
    · rename_i hlen
      obtain ⟨rfl, rfl⟩ := Prod.mk.inj (Except.ok.inj hn)
      obtain rfl := Except.ok.inj h
      simp only [readCoded, readFixed32, readBytes]
      rw [if_neg hlen]
  | fixed64 toValue =>
    obtain ⟨n, rest, hn, h⟩ := andThen_eq_ok.1 h
    unfold Wire.readFixed64 at hn
    split at hn
    · cases hn
    · rename_i hlen
      obtain ⟨rfl, rfl⟩ := Prod.mk.inj (Except.ok.inj hn)
      obtain rfl := Except.ok.inj h
      simp only [readCoded, readFixed64, readBytes]
      rw [if_neg hlen]
  | text =>
    obtain ⟨s, rest, hs, h⟩ := andThen_eq_ok.1 h
    rw [readText_eq_andThen] at hs
    obtain ⟨content, rest', hc, hs⟩ := andThen_eq_ok.1 hs
    unfold textOf at hs
    split at hs
    · cases hs
    · rename_i s' htext
      obtain ⟨rfl, rfl⟩ := Prod.mk.inj (Except.ok.inj hs)
      obtain rfl := Except.ok.inj h
      simp only [readCoded, readDelimited_of_read hc, htext]
  | bytes =>
    obtain ⟨content, rest, hc, h⟩ := andThen_eq_ok.1 h
    obtain rfl := Except.ok.inj h
    simp only [readCoded, readDelimited_of_read hc]

end Column

end ColumnarRecords
