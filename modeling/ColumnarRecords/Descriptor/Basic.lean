import ColumnarRecords.Message.Value

/-!
# Descriptors

The types of messages with every name resolved. A `Pool` holds the message and enum types of a
descriptor set, which refer to each other by position, so that types may be recursive. The fields
of a type form a `FieldTable`: ascending by number, with no number twice, and all numbers in the
range that a key can carry.
-/

namespace ColumnarRecords.Descriptor

/-- A kind of plain values. -/
inductive Scalar where
  /-- A floating point number of 64 bits. -/
  | double
  /-- A floating point number of 32 bits. -/
  | float
  /-- A signed word of 64 bits as a varint. -/
  | int64
  /-- An unsigned word of 64 bits as a varint. -/
  | uint64
  /-- A signed word of 32 bits as a varint. -/
  | int32
  /-- An unsigned word of 64 bits as eight bytes. -/
  | fixed64
  /-- An unsigned word of 32 bits as four bytes. -/
  | fixed32
  /-- A truth value as a varint. -/
  | bool
  /-- A text in UTF-8. -/
  | string
  /-- Any bytes. -/
  | bytes
  /-- An unsigned word of 32 bits as a varint. -/
  | uint32
  /-- A signed word of 32 bits as four bytes. -/
  | sfixed32
  /-- A signed word of 64 bits as eight bytes. -/
  | sfixed64
  /-- A signed word of 32 bits as a zigzag varint. -/
  | sint32
  /-- A signed word of 64 bits as a zigzag varint. -/
  | sint64
deriving DecidableEq, Repr

namespace Scalar

/-- The name of the kind in the language of schemas. -/
def name : Scalar → String
  | double => "double"
  | float => "float"
  | int64 => "int64"
  | uint64 => "uint64"
  | int32 => "int32"
  | fixed64 => "fixed64"
  | fixed32 => "fixed32"
  | bool => "bool"
  | string => "string"
  | bytes => "bytes"
  | uint32 => "uint32"
  | sfixed32 => "sfixed32"
  | sfixed64 => "sfixed64"
  | sint32 => "sint32"
  | sint64 => "sint64"

/-- The wire type of a single value. -/
def wireType : Scalar → Wire.WireType
  | double | fixed64 | sfixed64 => .fixed64
  | float | fixed32 | sfixed32 => .fixed32
  | string | bytes => .lengthDelimited
  | int64 | uint64 | int32 | bool | uint32 | sint32 | sint64 => .varint

/-- Several values of the kind may share one delimited value. -/
def isPackable : Scalar → Bool
  | string | bytes => false
  | _ => true

/-- The value that a field of the kind has unless another is declared. -/
def zero : Scalar → Value
  | double => .f64 0
  | float => .f32 0
  | int64 | sfixed64 | sint64 => .i64 0
  | uint64 | fixed64 => .u64 0
  | int32 | sfixed32 | sint32 => .i32 0
  | fixed32 | uint32 => .u32 0
  | bool => .bool false
  | string => .string ""
  | bytes => .bytes []

end Scalar

/-- What a single value of a field is: a plain value, a message or group of the type at a position
of the pool, or a value of the enum at a position of the pool. -/
inductive Kind where
  /-- A plain value. -/
  | scalar (s : Scalar)
  /-- A message or group of the type at this position. -/
  | message (index : Nat)
  /-- A value of the enum at this position. -/
  | enum (index : Nat)
deriving DecidableEq, Repr

namespace Kind

/-- The wire type of a single value that is no group. -/
def wireType : Kind → Wire.WireType
  | scalar s => s.wireType
  | message _ => .lengthDelimited
  | enum _ => .varint

/-- Several values of the kind may share one delimited value. -/
def isPackable : Kind → Bool
  | scalar s => s.isPackable
  | message _ => false
  | enum _ => true

end Kind

/-- How many values a field holds, and how they are told apart. -/
inductive Arity where
  /-- At most one value. -/
  | single
  /-- Any number of values in order. -/
  | list
  /-- Any number of values, each under a key of its own; an entry is a message of the type at this
  position. -/
  | map (entry : Nat)
deriving DecidableEq, Repr

/-- A field of a message type, or an extension of it. -/
structure Field where
  /-- The number in the field's key. -/
  number : Nat
  /-- The field's own name. -/
  name : String
  /-- The name with those of the package and the messages around it. -/
  fullName : String
  /-- The name in JSON. -/
  jsonName : String
  /-- What a single value is; for a map, an entry. -/
  kind : Kind
  /-- How many values there are. -/
  arity : Arity
  /-- The values are groups. -/
  isGroup : Bool
  /-- What is assigned counts as set, even if it is the default or holds no value. -/
  hasPresence : Bool
  /-- The position of the oneof that the field is a member of. -/
  oneof : Option Nat
  /-- Several values are written as one delimited value. -/
  isPacked : Bool
  /-- The single value that stands for an unset field. -/
  defaultValue : Value

/-- What an unset field holds. -/
def Field.unsetValue (f : Field) : Value :=
  match f.arity with
  | .single => f.defaultValue
  | .list => .list []
  | .map _ => .map []

/-- The largest number a field can have. -/
def maxFieldNumber : Nat := 2 ^ 29 - 1

/-- Fields ascending by number. -/
structure FieldTable where
  /-- The fields in the order of their numbers. -/
  toList : List Field
  /-- No number comes twice, and the numbers ascend. -/
  ascending : toList.Pairwise fun a b => a.number < b.number
  /-- The numbers fit a key. -/
  number_mem : ∀ f ∈ toList, 1 ≤ f.number ∧ f.number ≤ maxFieldNumber

namespace FieldTable

/-- The table of no field. -/
def empty : FieldTable := ⟨[], .nil, by simp⟩

/-- The field of a number. -/
def find? (t : FieldTable) (number : Nat) : Option Field :=
  t.toList.find? (·.number == number)

/-- The field of a name. -/
def named? (t : FieldTable) (name : String) : Option Field :=
  t.toList.find? (·.name == name)

/-- The list with a field put in its place, unless its number is taken. -/
def insertList? (f : Field) : List Field → Option (List Field)
  | [] => some [f]
  | g :: rest =>
    if f.number < g.number then some (f :: g :: rest)
    else if f.number = g.number then none
    else (insertList? f rest).map (g :: ·)

/-- What is in the list after a field was put in. -/
theorem mem_insertList? {f g : Field} {l r : List Field} (h : insertList? f l = some r) :
    g ∈ r ↔ g = f ∨ g ∈ l := by
  induction l generalizing r with
  | nil => simp only [insertList?, Option.some.injEq] at h; subst h; simp
  | cons d rest ih =>
    simp only [insertList?] at h
    split at h
    · simp only [Option.some.injEq] at h; subst h; simp
    · split at h
      · simp at h
      · simp only [Option.map_eq_some_iff] at h
        obtain ⟨r', hr, rfl⟩ := h
        simp only [List.mem_cons, ih hr]
        grind

/-- The list stays ascending. -/
theorem pairwise_insertList? {f : Field} {l r : List Field} (h : insertList? f l = some r)
    (hl : l.Pairwise fun a b => a.number < b.number) :
    r.Pairwise fun a b => a.number < b.number := by
  induction l generalizing r with
  | nil => simp only [insertList?, Option.some.injEq] at h; subst h; simp
  | cons d rest ih =>
    have hd := List.pairwise_cons.1 hl
    simp only [insertList?] at h
    split at h
    · simp only [Option.some.injEq] at h
      subst h
      refine List.pairwise_cons.2 ⟨?_, hl⟩
      intro g hg
      rcases List.mem_cons.1 hg with rfl | hg
      · assumption
      · have := hd.1 g hg; omega
    · split at h
      · simp at h
      · simp only [Option.map_eq_some_iff] at h
        obtain ⟨r', hr, rfl⟩ := h
        refine List.pairwise_cons.2 ⟨?_, ih hr hd.2⟩
        intro g hg
        rcases (mem_insertList? hr).1 hg with rfl | hg
        · omega
        · exact hd.1 g hg

/-- The table with a field put in its place, unless its number is taken or out of range. -/
def insert? (f : Field) (t : FieldTable) : Option FieldTable :=
  if hn : 1 ≤ f.number ∧ f.number ≤ maxFieldNumber then
    match h : insertList? f t.toList with
    | none => none
    | some r => some {
        toList := r
        ascending := pairwise_insertList? h t.ascending
        number_mem := by
          intro g hg
          rcases (mem_insertList? h).1 hg with rfl | hg
          · exact hn
          · exact t.number_mem g hg }
  else none

/-- The table with fields put in their places; one whose number is taken or out of range is left
out. -/
def insertAll (fields : List Field) (t : FieldTable) : FieldTable :=
  fields.foldl (fun t f => (t.insert? f).getD t) t

/-- In an ascending list a field is found by its number. -/
theorem list_find?_of_mem {f : Field} {l : List Field} (hf : f ∈ l)
    (hp : l.Pairwise fun a b => a.number < b.number) :
    l.find? (·.number == f.number) = some f := by
  induction l with
  | nil => simp at hf
  | cons d rest ih =>
    have hd := List.pairwise_cons.1 hp
    rcases List.mem_cons.1 hf with rfl | hm
    · simp
    · have := hd.1 f hm
      rw [List.find?_cons_of_neg (by simp; omega)]
      exact ih hm hd.2

/-- A field is found by its number exactly if it is in the table. -/
theorem find?_eq_some_iff {t : FieldTable} {n : Nat} {f : Field} :
    t.find? n = some f ↔ f ∈ t.toList ∧ f.number = n := by
  constructor
  · intro h
    exact ⟨List.mem_of_find?_eq_some h, by simpa using List.find?_some h⟩
  · rintro ⟨hf, rfl⟩
    exact list_find?_of_mem hf t.ascending

end FieldTable

/-- A message type. -/
structure MessageType where
  /-- The name with those of the package and the messages around it. -/
  fullName : String
  /-- The fields. -/
  fields : FieldTable
  /-- The extensions of the type. -/
  extensions : FieldTable
  /-- The names of the oneofs. -/
  oneofs : List String
  /-- The messages are the entries of a map. -/
  isMapEntry : Bool

/-- The type without a field, which stands for one that is missing. -/
def MessageType.empty : MessageType := ⟨"", .empty, .empty, [], false⟩

/-- The field or else the extension of a number. -/
def MessageType.find? (t : MessageType) (number : Nat) : Option Field :=
  t.fields.find? number <|> t.extensions.find? number

/-- The fields and extensions that share a oneof with a field, the field itself left out. -/
def MessageType.siblings (t : MessageType) (f : Field) : List Nat :=
  match f.oneof with
  | none => []
  | some i =>
    (t.fields.toList.filter fun g => g.oneof == some i && g.number != f.number).map Field.number

/-- An enum type. -/
structure EnumType where
  /-- The name with those of the package and the messages around it. -/
  fullName : String
  /-- The names of the values with their numbers, in order of declaration. -/
  values : List (String × Int32)

/-- The first name that has a number. -/
def EnumType.nameOf? (e : EnumType) (number : Int32) : Option String :=
  (e.values.find? (·.2 == number)).map Prod.fst

/-- The number that a name has. -/
def EnumType.numberOf? (e : EnumType) (name : String) : Option Int32 :=
  (e.values.find? (·.1 == name)).map Prod.snd

/-- The types of a descriptor set. -/
structure Pool where
  /-- The message types, to which kinds refer by position. -/
  messages : List MessageType
  /-- The enum types, to which kinds refer by position. -/
  enums : List EnumType

namespace Pool

/-- The message type at a position. -/
def message (p : Pool) (index : Nat) : MessageType :=
  p.messages[index]?.getD .empty

/-- The enum type at a position. -/
def enum (p : Pool) (index : Nat) : EnumType :=
  p.enums[index]?.getD ⟨"", []⟩

/-- The position of the message type of a full name. -/
def findMessage? (p : Pool) (fullName : String) : Option Nat :=
  p.messages.findIdx? (·.fullName == fullName)

/-- The name of a kind in the language of schemas. -/
def kindName (p : Pool) : Kind → String
  | .scalar s => s.name
  | .message index => (p.message index).fullName
  | .enum index => (p.enum index).fullName

/-- The value of a kind that stands for an unset field: zero or empty, and the first value of an
enum. -/
def zero (p : Pool) : Kind → Value
  | .scalar s => s.zero
  | .message _ => .message .empty
  | .enum index =>
    .enum (match (p.enum index).values with
      | [] => 0
      | (_, number) :: _ => number)

end Pool

end ColumnarRecords.Descriptor
