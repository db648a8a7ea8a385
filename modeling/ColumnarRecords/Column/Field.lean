import ColumnarRecords.Column.Value

/-!
# Fields from columns

Decoding what a column holds for one record into the field that it stores. A single value replaces
what the field held, and nothing may follow it; the elements of a repeated field and the entries
of a map are added to those that are there. A group has no length, so a single one is the whole
column.
-/

namespace ColumnarRecords.Column

open Descriptor

/-- The values that a field of a message holds as a list. -/
def listOf (m : Message) (f : Field) : List Value :=
  (m.get f).elements

/-- The entries that a field of a message holds as a map. -/
def mapOf (m : Message) (f : Field) : List (MapKey × Value) :=
  (m.get f).entries

/-- The map with entries put in one after another. -/
def insertAll (entries : List (MapKey × Value)) (map : List (MapKey × Value)) :
    List (MapKey × Value) :=
  entries.foldl (fun map e => MapKey.insert e.1 e.2 map) map

/-- The single value that a whole column is. -/
def readSingle (p : Pool) (f : Field) (bytes : List UInt8) : Except Fault Value :=
  match f.kind, f.isGroup with
  | .message index, true => (decodeMessage p index bytes).map Value.message
  | kind, _ => readWhole (readValue p kind) bytes

/-- What a field of a message holds after a column's bytes are decoded into it. -/
def readField (p : Pool) (f : Field) (bytes : List UInt8) (m : Message) : Except Fault Value :=
  match f.arity with
  | .map entry =>
    (readAll (readEntry p entry) bytes).map fun entries => .map (insertAll entries (mapOf m f))
  | .list =>
    if f.isGroup then .error .repeatedGroup
    else (readAll (readValue p f.kind) bytes).map fun values => .list (listOf m f ++ values)
  | .single => readSingle p f bytes

/-- Decodes a column's bytes into a field of a message, in place. What was changed before a fault
would stay changed, so all values are read before the message is touched. -/
def decodeInto (p : Pool) (t : MessageType) (f : Field) (bytes : List UInt8) :
    EStateM Fault Message Unit := do
  match f.arity with
  | .map entry =>
    let entries ← MonadExcept.ofExcept (readAll (readEntry p entry) bytes)
    modify fun m => m.assign t f (.map (insertAll entries (mapOf m f)))
  | .list =>
    if f.isGroup then throw .repeatedGroup
    let values ← MonadExcept.ofExcept (readAll (readValue p f.kind) bytes)
    modify fun m => m.assign t f (.list (listOf m f ++ values))
  | .single =>
    let v ← MonadExcept.ofExcept (readSingle p f bytes)
    modify (Message.assign t f v)

/-- A message of a type with a column's bytes decoded into a field. -/
def decodeField (p : Pool) (t : MessageType) (f : Field) (bytes : List UInt8) (m : Message) :
    Except Fault Message :=
  match decodeInto p t f bytes m with
  | .ok () m => .ok m
  | .error fault _ => .error fault

/-- Decoding in place assigns what the field holds afterwards, or fails and changes nothing. -/
theorem decodeInto_eq (p : Pool) (t : MessageType) (f : Field) (bytes : List UInt8)
    (m : Message) :
    decodeInto p t f bytes m =
      match readField p f bytes m with
      | .ok v => .ok () (m.assign t f v)
      | .error fault => .error fault m := by
  unfold decodeInto readField
  cases f.arity with
  | single => cases readSingle p f bytes <;> rfl
  | list =>
    cases f.isGroup with
    | true => rfl
    | false => cases readAll (readValue p f.kind) bytes <;> rfl
  | map entry =>
    simp only
    cases readAll (readEntry p entry) bytes <;> rfl

/-- Decoding a column into a field assigns what the field holds afterwards. -/
theorem decodeField_eq (p : Pool) (t : MessageType) (f : Field) (bytes : List UInt8)
    (m : Message) :
    decodeField p t f bytes m = (readField p f bytes m).map fun v => m.assign t f v := by
  rw [decodeField, decodeInto_eq]
  cases readField p f bytes m <;> rfl

end ColumnarRecords.Column
