import ColumnarRecords.Message.Encode
import ColumnarRecords.Proofs.Message.Assign

/-!
# Messages of a type

Which messages are of a type of a pool, nested to some depth (`Message.IsOf`): they hold fields of
the type only, each with a value that the field can have (`Field.Accepts`), and of the members of a
oneof one at most. The entries of a map may stand in any order.

What a descriptor set may declare goes beyond the language of schemas. The language gives presence
to single fields only; a list of nothing that counts as set all the same cannot be told from one
that is not there once it is in a column of its own, and `Field.HoldsSome` says that there is none.
In the same way `MessageType.IsPair` says of the entries of maps what the language ensures and no
loading checks.
-/

namespace ColumnarRecords

open Descriptor

/-- A plain value is of a kind. -/
def Descriptor.Scalar.Accepts : Scalar → Value → Prop
  | .double, .f64 _ | .float, .f32 _ | .int64, .i64 _ | .uint64, .u64 _ | .int32, .i32 _
  | .fixed64, .u64 _ | .fixed32, .u32 _ | .bool, .bool _ | .string, .string _ | .bytes, .bytes _
  | .uint32, .u32 _ | .sfixed32, .i32 _ | .sfixed64, .i64 _ | .sint32, .i32 _
  | .sint64, .i64 _ => True
  | _, _ => False

/-- A single value is of a kind; which messages there may be is said by a predicate. -/
def Descriptor.Kind.Accepts (nested : Nat → Message → Prop) : Kind → Value → Prop
  | .scalar s, v => s.Accepts v
  | .enum _, .enum _ => True
  | .message index, .message m => nested index m
  | _, _ => False

/-- A value is one that a field can have: a single value, a list of them, or a map, in any order, of
keys that are single values to values that the field of values can have. -/
inductive Descriptor.Field.Accepts (p : Pool) (nested : Nat → Message → Prop) :
    Field → Value → Prop where
  /-- There is a single value of the kind. -/
  | single {f : Field} {v : Value} (arity : f.arity = .single) (value : f.kind.Accepts nested v) :
    Accepts p nested f v
  /-- The elements are of the kind. -/
  | list {f : Field} {values : List Value} (arity : f.arity = .list)
    (elements : ∀ v ∈ values, f.kind.Accepts nested v) : Accepts p nested f (.list values)
  /-- The entries have keys and values of their fields. -/
  | map {f : Field} {entry : Nat} {entries : List (MapKey × Value)} (arity : f.arity = .map entry)
    (keys : ∀ e ∈ entries, ∃ keyField, (p.message entry).fields.find? 1 = some keyField ∧
      keyField.kind.Accepts nested e.1.toValue)
    (declared : ∀ e ∈ entries, ((p.message entry).fields.find? 2).isSome)
    (values : ∀ e ∈ entries, ∀ valueField, (p.message entry).fields.find? 2 = some valueField →
      Accepts p nested valueField e.2) : Accepts p nested f (.map entries)

/-- A message holds fields of a type only, with values that they can have and that are allowed. -/
structure Message.Conforms (p : Pool) (allowed : Field → Value → Prop)
    (nested : Nat → Message → Prop) (index : Nat) (m : Message) : Prop where
  /-- The entries ascend by number, none coming twice. -/
  ascending : m.entries.Pairwise fun a b => a.1 < b.1
  /-- Each entry is a field of the type with a value that it can have. -/
  field : ∀ x ∈ m.entries, ∃ f v, (p.message index).fields.find? x.1 = some f ∧ x.2 = .value v ∧
    f.Accepts p nested v ∧ allowed f v
  /-- Of the members of a oneof one is there at most. -/
  oneof : ∀ x ∈ m.entries, ∀ f, (p.message index).fields.find? x.1 = some f →
    ∀ y ∈ m.entries, y.1 ∉ (p.message index).siblings f

/-- A message is of the type at a position, holds only what is allowed, and has at most as many
messages nested in each other inside it. -/
def Message.IsOf (p : Pool) (allowed : Field → Value → Prop) :
    (depth : Nat) → (index : Nat) → Message → Prop
  | 0, index, m => m.Conforms p allowed (fun _ _ => False) index
  | depth + 1, index, m => m.Conforms p allowed (IsOf p allowed depth) index

/-- A field with presence does not hold a list or a map of nothing. -/
def Descriptor.Field.HoldsSome (f : Field) (v : Value) : Prop :=
  f.hasPresence = true → v ≠ .list [] ∧ v ≠ .map []

/-- Entries of the type are pairs: the key is one value, putting the value in leaves the key where it
is, and a key that need not be written is the one that its field has by default. -/
structure Descriptor.MessageType.IsPair (form : EntryForm) (p : Pool) (t : MessageType) : Prop where
  /-- The key is not repeated. -/
  single : ∀ f, t.fields.find? 1 = some f → f.arity = .single
  /-- The key and the value share no oneof. -/
  oneof : ∀ f, t.fields.find? 2 = some f → 1 ∉ t.siblings f
  /-- A key that is not written has the default of its kind. -/
  key : form = .terse → ∀ f, t.fields.find? 1 = some f → f.hasPresence = false →
    f.defaultValue = p.zero f.kind

namespace Descriptor.Field.Accepts

variable {p : Pool} {nested : Nat → Message → Prop} {f : Field} {v : Value}
  (h : f.Accepts p nested v)
include h

/-- The value of a single field is of its kind. -/
theorem of_single (harity : f.arity = .single) : f.kind.Accepts nested v := by
  cases h with
  | single _ value => exact value
  | list hlist => cases harity.symm.trans hlist
  | map hmap => cases harity.symm.trans hmap

/-- The value of a repeated field is a list. -/
theorem of_list (harity : f.arity = .list) :
    ∃ values, v = .list values ∧ ∀ v ∈ values, f.kind.Accepts nested v := by
  cases h with
  | single hsingle => cases harity.symm.trans hsingle
  | list _ elements => exact ⟨_, rfl, elements⟩
  | map hmap => cases harity.symm.trans hmap

/-- The value of a map is its entries, each with a key and a value of their fields. -/
theorem of_map {entry : Nat} (harity : f.arity = .map entry) :
    ∃ entries, v = .map entries ∧ ∀ e ∈ entries, ∃ keyField valueField,
      (p.message entry).fields.find? 1 = some keyField ∧
      (p.message entry).fields.find? 2 = some valueField ∧
      keyField.kind.Accepts nested e.1.toValue ∧ valueField.Accepts p nested e.2 := by
  cases h with
  | single hsingle => cases harity.symm.trans hsingle
  | list hlist => cases harity.symm.trans hlist
  | map hmap keys declared values =>
    obtain rfl := Arity.map.inj (harity.symm.trans hmap)
    refine ⟨_, rfl, fun e he => ?_⟩
    obtain ⟨keyField, hkey, hk⟩ := keys e he
    obtain ⟨valueField, hvalue⟩ := Option.isSome_iff_exists.1 (declared e he)
    exact ⟨keyField, valueField, hkey, hvalue, hk, values e he valueField hvalue⟩

end Descriptor.Field.Accepts

/-- The bytes of a single value without key and length. -/
def Descriptor.Kind.body (form : EntryForm) (p : Pool) : Kind → Value → List UInt8
  | .message index, .message m => m.encode form p index
  | kind, v => kind.plainBody v

section Bodies

variable {form : EntryForm} {p : Pool} {nested : Nat → Message → Prop} {kind : Kind}

/-- A single value has one body. -/
theorem bodies_of_accepts {v : Value} (h : kind.Accepts nested v) :
    v.bodies form p kind = [kind.body form p v] := by
  cases kind with
  | scalar s => cases v <;> first | rfl | (cases s <;> exact h.elim)
  | enum index => cases v <;> first | rfl | exact h.elim
  | message index => cases v <;> first | rfl | exact h.elim

/-- The elements of a list have one body each. -/
theorem listBodies_of_accepts {values : List Value} (h : ∀ v ∈ values, kind.Accepts nested v) :
    listBodies form p kind values = values.map (kind.body form p) := by
  induction values with
  | nil => rfl
  | cons v rest ih =>
    rw [listBodies, bodies_of_accepts (h v List.mem_cons_self),
      ih fun u hu => h u (List.mem_cons_of_mem _ hu)]
    rfl

end Bodies

/-- The value of an entry of a map with its tag, if it is written. -/
def valueBody (form : EntryForm) (p : Pool) (t : MessageType) (v : Value) : List UInt8 :=
  match t.fields.find? 2 with
  | some f => if form.writesValue f v then f.encodeTagged (v.bodies form p f.kind) else []
  | none => []

/-- The bytes of an entry of a map without its length: the key and the value, each with its own. -/
def entryBody (form : EntryForm) (p : Pool) (t : MessageType) (e : MapKey × Value) : List UInt8 :=
  form.keyBody p t e.1 ++ valueBody form p t e.2

/-- The entries of a map have one body each. -/
theorem mapBodies_eq_map (form : EntryForm) (p : Pool) (t : MessageType)
    (entries : List (MapKey × Value)) :
    mapBodies form p t entries = entries.map (entryBody form p t) := by
  induction entries with
  | nil => rfl
  | cons e rest ih =>
    obtain ⟨key, v⟩ := e
    rw [mapBodies, ih, List.map_cons, entryBody]
    rfl

end ColumnarRecords
