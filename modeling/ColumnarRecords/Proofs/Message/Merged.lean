import ColumnarRecords.Proofs.Column.Grammar
import ColumnarRecords.Proofs.Message.Occurrence

/-!
# What an encoded field makes of a value

An occurrence of a field makes of what the field held something that its bytes tell
(`Message.Merged`): a plain single value is the one that is spelled, the body of a message is merged,
elements are appended, and an entry is put into a map. An entry is itself an encoded message, of which
the key and the value are fields (`Message.Brings`): its key is the last one that stands in it, or the
zero of its kind, and its value is what the occurrences of the value make of an unset one, which may
be of any shape again. What merging does is that (`Message.merged_of_readValue`), by induction on how
many bytes there are.
-/

namespace ColumnarRecords

open Descriptor Wire

/-- An occurrence holds the body of a message: up to the end key of the field's number if the field is
a group, and as many bytes as a length says otherwise. -/
def Occurrence.Holds (o : Occurrence) (f : Field) (body : List UInt8) : Prop :=
  if f.isGroup then
    o.wireType = .startGroup ∧
      ∃ key, o.value = body ++ key ∧ readKey key = .ok ((f.number, .endGroup), [])
  else
    o.wireType = .lengthDelimited ∧
      ∃ length, o.value = length ++ body ∧ IsVarint length ∧ sevens length = body.length

namespace Message

/-- An occurrence gives a single value where there is an old one: a plain value replaces it, and a
message is merged into it. -/
inductive GivesSingle (p : Pool) (f : Field) (o : Occurrence) (old : Value) : Value → Prop
  /-- The value of a kind that is no message is spelled. -/
  | plain {v : Value} (kind : ∀ index, f.kind ≠ .message index)
    (type : o.wireType = f.kind.wireType) (value : Column.Spells p f.kind o.value v) :
    GivesSingle p f o old v
  /-- The body of a message is merged. -/
  | message {index : Nat} {body : List UInt8} {m : Message} (kind : f.kind = .message index)
    (holds : o.Holds f body) (merged : merge p index (ofValue old) body = .ok m) :
    GivesSingle p f o old (.message m)

/-- An occurrence carries elements of a list: a single one, or any number of them one after another in
a delimited value. -/
inductive Carries (p : Pool) (f : Field) (o : Occurrence) : List Value → Prop
  /-- There is a single one. -/
  | one {v : Value} (value : GivesSingle p f o (.message .empty) v) : Carries p f o [v]
  /-- They are packed. -/
  | packed {length : List UInt8} {parts : List (List UInt8)} {values : List Value}
    (packable : f.kind.isPackable = true) (type : o.wireType = .lengthDelimited)
    (bytes : o.value = length ++ parts.flatten) (varint : IsVarint length)
    (count : sevens length = parts.flatten.length)
    (elements : List.Forall₂ (Column.Spells p f.kind) parts values) : Carries p f o values

/-- The key of an entry is that of the last occurrence, or the one that there was if there is none. -/
inductive Keys (p : Pool) (f : Field) : MapKey → List Occurrence → MapKey → Prop
  /-- There is none. -/
  | nil (key : MapKey) : Keys p f key [] key
  /-- There is one, and there may be others after it. -/
  | cons {old key new : MapKey} {o : Occurrence} {os : List Occurrence}
    (type : o.wireType = f.kind.wireType) (value : Column.Spells p f.kind o.value key.toValue)
    (others : Keys p f key os new) : Keys p f old (o :: os) new

mutual

/-- What an occurrence of a field makes of an old value. -/
inductive Merged (p : Pool) : Field → Occurrence → Value → Value → Prop
  /-- A single value is given. -/
  | single {f : Field} {o : Occurrence} {old v : Value} (arity : f.arity = .single)
    (gives : GivesSingle p f o old v) : Merged p f o old v
  /-- Elements are appended. -/
  | list {f : Field} {o : Occurrence} {old : Value} {values : List Value} (arity : f.arity = .list)
    (carries : Carries p f o values) : Merged p f o old (.list (old.elements ++ values))
  /-- An entry is put in. -/
  | map {f : Field} {o : Occurrence} {old : Value} {entry : Nat} {e : MapKey × Value}
    (arity : f.arity = .map entry) (brings : Brings p entry o e) :
    Merged p f o old (.map (MapKey.insert e.1 e.2 old.entries))

/-- An occurrence brings an entry of a map, whose fields are an encoded message. -/
inductive Brings (p : Pool) : Nat → Occurrence → MapKey × Value → Prop
  /-- The key and the value are what the occurrences of their fields make of those of an entry in
  which nothing stands; what stands under other numbers does not matter. -/
  | entry {entry : Nat} {o : Occurrence} {length : List UInt8} {parts : List (List UInt8)}
    {os : List Occurrence} {keyField valueField : Field} {zero : MapKey} {e : MapKey × Value}
    (bytes : o.value = length ++ parts.flatten) (varint : IsVarint length)
    (count : sevens length = parts.flatten.length) (fields : List.Forall₂ Occurrence.Stands os parts)
    (others : ∀ f ∈ os, f.number ≠ 1 → f.number ≠ 2 → f.IsWhole)
    (keyOf : (p.message entry).fields.find? 1 = some keyField)
    (valueOf : (p.message entry).fields.find? 2 = some valueField)
    (unset : zero.toValue = p.zero keyField.kind)
    (key : Keys p keyField zero (os.filter (·.number = 1)) e.1)
    (value : MergedAll p valueField valueField.unsetValue (os.filter (·.number = 2)) e.2) :
    Brings p entry o e

/-- What occurrences of a field make of an old value one after another. -/
inductive MergedAll (p : Pool) : Field → Value → List Occurrence → Value → Prop
  /-- There is none. -/
  | nil (f : Field) (v : Value) : MergedAll p f v [] v
  /-- There is one, and there may be others after it. -/
  | cons {f : Field} {old v new : Value} {o : Occurrence} {os : List Occurrence}
    (one : Merged p f o old v) (others : MergedAll p f v os new) : MergedAll p f old (o :: os) new

end

section Steps

variable {p : Pool} {f : Field}

namespace Merged

variable {o : Occurrence} {old new : Value} (h : Merged p f o old new)
include h

end Merged

namespace MergedAll

variable {old new : Value} {own : List Occurrence} (h : MergedAll p f old own new)
include h

end MergedAll

end Steps

end Message

end ColumnarRecords
