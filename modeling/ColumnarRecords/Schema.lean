import ColumnarRecords.Descriptor.Pool
import ColumnarRecords.Error

/-!
# Schemas

A message type together with the pool that its fields refer to. The fields are in ascending order
of number, and an index into them is how a caller names a field.
-/

namespace ColumnarRecords

open Descriptor

/-- A message type of a pool. -/
structure Schema where
  /-- The types of the descriptor set. -/
  pool : Pool
  /-- The position of the message type in the pool. -/
  index : Nat

namespace Schema

/-- The message type. -/
def type (s : Schema) : MessageType := s.pool.message s.index

/-- The name of the message type with those of the package and the messages around it. -/
def fullName (s : Schema) : String := s.type.fullName

/-- The fields in ascending order of number. -/
def fields (s : Schema) : List Field := s.type.fields.toList

/-- The number of fields. -/
def fieldCount (s : Schema) : Nat := s.fields.length

/-- The field at an index. -/
def field? (s : Schema) (index : Nat) : Option Field := s.fields[index]?

/-- The field of a number. -/
def fieldOfNumber? (s : Schema) (number : Nat) : Option Field := s.type.fields.find? number

/-- The message type of a name in a pool. Points at the start of the name are left out. -/
def ofPool (pool : Pool) (name : String) : Except ReadError Schema :=
  let name := String.ofList (name.toList.dropWhile (· = '.'))
  match pool.findMessage? name with
  | none => .error (.unknownMessage name)
  | some index => .ok ⟨pool, index⟩

/-- The message type of a name in an encoded descriptor set. -/
def ofDescriptorSet (bytes : List UInt8) (name : String) : Except ReadError Schema :=
  match Pool.decode bytes with
  | .error fault => .error (.descriptor fault)
  | .ok pool => ofPool pool name

end Schema

end ColumnarRecords
