import Mathlib.Data.List.Forall2
import ColumnarRecords.Proofs.Descriptor.Sound
import ColumnarRecords.Proofs.Message.Edit
import ColumnarRecords.Proofs.Wire.Grammar

/-!
# The fields that stand in an encoded message

An encoded message is read field by field. What stands in it is a list of occurrences, each with a
number, a wire type and the bytes of a value, and one after another they make up the encoded message
(`Message.exists_reads_of_whileLonger`, for steps of any kind). Where a value of a type ends depends
on the fields of the type (`Message.occurrences`), but not on the message that the fields are merged
into: merging the bytes is taking one occurrence after another
(`Message.exists_takesAll_of_merge`). A field that is skipped ends where its wire type says
(`Occurrence.IsWhole`).
-/

namespace ColumnarRecords

open Descriptor Wire

/-- A field as it stands in an encoded message. -/
structure Occurrence where
  /-- The number of its key. -/
  number : Nat
  /-- The wire type of its key. -/
  wireType : WireType
  /-- The bytes of its value. -/
  value : List UInt8
deriving DecidableEq, Repr

namespace Occurrence

/-- Bytes are a field as it stands in an encoded message: a key, and the bytes of its value. -/
def Stands (o : Occurrence) (bytes : List UInt8) : Prop :=
  ∃ key, bytes = key ++ o.value ∧ readKey key = .ok ((o.number, o.wireType), [])

/-- The bytes of an occurrence are one value of its wire type, whatever its number stands for. -/
inductive IsWhole : Occurrence → Prop where
  /-- One varint. -/
  | varint {o : Occurrence} (type : o.wireType = .varint) (varint : IsVarint o.value) : IsWhole o
  /-- Four bytes. -/
  | fixed32 {o : Occurrence} (type : o.wireType = .fixed32) (length : o.value.length = 4) :
    IsWhole o
  /-- Eight bytes. -/
  | fixed64 {o : Occurrence} (type : o.wireType = .fixed64) (length : o.value.length = 8) :
    IsWhole o
  /-- A varint and as many bytes as it says. -/
  | delimited {o : Occurrence} {length content : List UInt8} (type : o.wireType = .lengthDelimited)
    (bytes : o.value = length ++ content) (varint : IsVarint length)
    (count : sevens length = content.length) : IsWhole o
  /-- The fields of a group and its end key. -/
  | group {o : Occurrence} {os : List Occurrence} {parts : List (List UInt8)} {key : List UInt8}
    (type : o.wireType = .startGroup) (bytes : o.value = parts.flatten ++ key)
    (fields : List.Forall₂ Stands os parts) (whole : ∀ f ∈ os, f.IsWhole)
    (closed : readKey key = .ok ((o.number, .endGroup), [])) : IsWhole o

end Occurrence

namespace Message

section Reads

variable {σ : Type}

/-- A state becomes another by steps that read occurrences one after another, of each of which all
bytes are taken. -/
inductive Reads (step : σ → Nat → WireType → Reader σ) : σ → List Occurrence → σ → Prop where
  /-- There is none. -/
  | nil (s : σ) : Reads step s [] s
  /-- There is one, and there may be others after it. -/
  | cons {s s' s'' : σ} {o : Occurrence} {os : List Occurrence}
    (one : step s o.number o.wireType o.value = .ok (s', [])) (others : Reads step s' os s'') :
    Reads step s (o :: os) s''

end Reads

end Message

end ColumnarRecords
