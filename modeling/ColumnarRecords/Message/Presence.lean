import ColumnarRecords.Descriptor.Basic

/-!
# Which fields of a message are set

A message may hold the default value of a field whose presence is implicit, or a list or map that
holds nothing; such a field counts as unset all the same. `Message.fields` lists the fields that are
set. Assigning a member of a oneof clears the other members.
-/

namespace ColumnarRecords

open Descriptor

/-- The bits are those of a zero, of either sign, of a word with this sign bit. -/
def isZeroBits (sign bits : Nat) : Bool :=
  bits % sign == 0

/-- Two plain values are equal as numbers or texts: zeros of either sign are, and what is no number
equals nothing. -/
def Value.isSame : Value → Value → Bool
  | .bool a, .bool b => a == b
  | .i32 a, .i32 b => a == b
  | .i64 a, .i64 b => a == b
  | .u32 a, .u32 b => a == b
  | .u64 a, .u64 b => a == b
  | .f32 a, .f32 b =>
    (isZeroBits (2 ^ 31) a.toNat && isZeroBits (2 ^ 31) b.toNat) ||
      (a == b && a.toNat % 2 ^ 31 ≤ 255 * 2 ^ 23)
  | .f64 a, .f64 b =>
    (isZeroBits (2 ^ 63) a.toNat && isZeroBits (2 ^ 63) b.toNat) ||
      (a == b && a.toNat % 2 ^ 63 ≤ 2047 * 2 ^ 52)
  | .string a, .string b => a == b
  | .bytes a, .bytes b => a == b
  | .enum a, .enum b => a == b
  | _, _ => false

/-- A field that holds the value counts as set. -/
def Descriptor.Field.isSet (f : Field) (v : Value) : Bool :=
  f.hasPresence ||
    match f.arity, v with
    | .single, v => !v.isSame f.defaultValue
    | .list, .list values => !values.isEmpty
    | .map _, .map entries => !entries.isEmpty
    | _, _ => false

namespace Message

/-- The fields of a table that are set, with their values, ascending by number. -/
def fieldsOf (table : FieldTable) (m : Message) : List (Field × Value) :=
  m.entries.filterMap fun
    | (number, .value v) =>
      (table.find? number).bind fun f => if f.isSet v then some (f, v) else none
    | (_, .unknown _) => none

/-- The fields of the type that are set, with their values, ascending by number. -/
def fields (t : MessageType) (m : Message) : List (Field × Value) :=
  fieldsOf t.fields m

/-- The extensions of the type that are set, with their values, ascending by number. -/
def extensions (t : MessageType) (m : Message) : List (Field × Value) :=
  fieldsOf t.extensions m

/-- The values of numbers that the type does not know: ascending by number, and those of one number
in order of arrival. -/
def unknowns (m : Message) : List (Nat × Wire.WireValue) :=
  m.entries.flatMap fun
    | (number, .unknown values) => values.map fun v => (number, v)
    | (_, .value _) => []

/-- What a field holds, set or not. -/
def get (m : Message) (f : Field) : Value :=
  (m.value? f.number).getD f.unsetValue

/-- The message with nothing under any of the numbers. -/
def eraseAll (m : Message) (numbers : List Nat) : Message :=
  numbers.foldl erase m

/-- The message with the other members of a field's oneof cleared. -/
def clearSiblings (t : MessageType) (f : Field) (m : Message) : Message :=
  m.eraseAll (t.siblings f)

/-- The message with a value assigned to a field. -/
def assign (t : MessageType) (f : Field) (v : Value) (m : Message) : Message :=
  (m.clearSiblings t f).insert f.number (.value v)

/-- A lookup after numbers were cleared. -/
theorem find?_eraseAll (m : Message) (numbers : List Nat) (n : Nat) :
    (m.eraseAll numbers).find? n = if n ∈ numbers then none else m.find? n := by
  unfold eraseAll
  induction numbers generalizing m with
  | nil => simp
  | cons k rest ih =>
    rw [List.foldl_cons, ih, find?_erase]
    by_cases hk : n = k <;> by_cases hr : n ∈ rest <;> simp [hk, hr]

/-- A lookup after an assignment: the field holds the value, and the other members of its oneof
hold nothing. -/
theorem find?_assign (t : MessageType) (f : Field) (v : Value) (m : Message) (n : Nat) :
    (m.assign t f v).find? n =
      if n = f.number then some (.value v) else if n ∈ t.siblings f then none else m.find? n := by
  rw [assign, find?_insert, clearSiblings, find?_eraseAll]

end Message

end ColumnarRecords
