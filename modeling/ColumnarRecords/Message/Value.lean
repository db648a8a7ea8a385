import ColumnarRecords.Wire.Unknown

/-!
# Messages and their values

A message holds values by field number, whatever its type. Next to the values of known fields it
keeps those of numbers that its type does not know, as they stood on the wire. The entries are in
ascending order of number, at most one a number, and the entries of a map that was decoded in
ascending order of key, at most one a key; so decoded messages that hold the same are equal. Floating
point values are their bit patterns.

`Message.find?_insert` and `Message.find?_erase` say what the operations do to a lookup.
-/

namespace ColumnarRecords

/-- The key of a map entry. -/
inductive MapKey where
  /-- A truth value. -/
  | bool (b : Bool)
  /-- A signed word of 32 bits. -/
  | i32 (n : Int32)
  /-- A signed word of 64 bits. -/
  | i64 (n : Int64)
  /-- An unsigned word of 32 bits. -/
  | u32 (n : UInt32)
  /-- An unsigned word of 64 bits. -/
  | u64 (n : UInt64)
  /-- A text. -/
  | string (s : String)
deriving DecidableEq

mutual

/-- The value of a field. -/
inductive Value where
  /-- A truth value. -/
  | bool (b : Bool)
  /-- A signed word of 32 bits. -/
  | i32 (n : Int32)
  /-- A signed word of 64 bits. -/
  | i64 (n : Int64)
  /-- An unsigned word of 32 bits. -/
  | u32 (n : UInt32)
  /-- An unsigned word of 64 bits. -/
  | u64 (n : UInt64)
  /-- The bits of a floating point number of 32 bits. -/
  | f32 (bits : UInt32)
  /-- The bits of a floating point number of 64 bits. -/
  | f64 (bits : UInt64)
  /-- A text. -/
  | string (s : String)
  /-- Bytes. -/
  | bytes (content : List UInt8)
  /-- The number of an enum value, declared or not. -/
  | enum (number : Int32)
  /-- A message or group. -/
  | message (m : Message)
  /-- The values of a repeated field. -/
  | list (values : List Value)
  /-- The entries of a map. -/
  | map (entries : List (MapKey × Value))

/-- What a message holds under a number. -/
inductive Entry where
  /-- The value of a field that the type knows. -/
  | value (v : Value)
  /-- The values of a number that the type does not know, in order of arrival. -/
  | unknown (values : List Wire.WireValue)

/-- A message: what it holds under each number, ascending by number. -/
structure Message where
  /-- The numbers and what is held under them. -/
  entries : List (Nat × Entry)

end

/-- The values that a value is a list of, none if it is no list. -/
def Value.elements : Value → List Value
  | .list values => values
  | _ => []

/-- The entries that a value is a map of, none if it is no map. -/
def Value.entries : Value → List (MapKey × Value)
  | .map entries => entries
  | _ => []

namespace MapKey

/-- The order of text by code points, which is that of its UTF-8 bytes. -/
def textLt : List Char → List Char → Bool
  | _, [] => false
  | [], _ :: _ => true
  | a :: s, b :: t => if a = b then textLt s t else a.toNat < b.toNat

/-- The order of keys: numbers by value, false before true, text by code points. Keys of different
sorts, which no map has together, are in the order of the sorts. -/
def lt : MapKey → MapKey → Bool
  | bool a, bool b => !a && b
  | i32 a, i32 b => a.toInt < b.toInt
  | i64 a, i64 b => a.toInt < b.toInt
  | u32 a, u32 b => a.toNat < b.toNat
  | u64 a, u64 b => a.toNat < b.toNat
  | string a, string b => textLt a.toList b.toList
  | a, b => rank a < rank b
where
  /-- The position of a sort of keys among the sorts. -/
  rank : MapKey → Nat
    | bool _ => 0
    | i32 _ => 1
    | i64 _ => 2
    | u32 _ => 3
    | u64 _ => 4
    | string _ => 5

/-- The value that a key is, seen as the value of the entry's key field. -/
def toValue : MapKey → Value
  | bool b => .bool b
  | i32 n => .i32 n
  | i64 n => .i64 n
  | u32 n => .u32 n
  | u64 n => .u64 n
  | string s => .string s

/-- The key that a value can be. -/
def ofValue? : Value → Option MapKey
  | .bool b => some (bool b)
  | .i32 n => some (i32 n)
  | .i64 n => some (i64 n)
  | .u32 n => some (u32 n)
  | .u64 n => some (u64 n)
  | .string s => some (string s)
  | _ => none

/-- A key is read back from its value. -/
@[simp]
theorem ofValue?_toValue (k : MapKey) : ofValue? k.toValue = some k := by
  cases k <;> rfl

/-- A key is the value that it is seen as. -/
theorem toValue_of_ofValue? {v : Value} {k : MapKey} (h : ofValue? v = some k) :
    k.toValue = v := by
  cases v <;> cases h <;> rfl

/-- The map with the entry put in, in the place of an entry of the same key. -/
def insert (key : MapKey) (v : Value) : List (MapKey × Value) → List (MapKey × Value)
  | [] => [(key, v)]
  | (k, w) :: rest =>
    if k = key then (key, v) :: rest
    else if lt key k then (key, v) :: (k, w) :: rest
    else (k, w) :: insert key v rest

end MapKey

namespace Message

/-- The message that holds nothing. -/
def empty : Message := ⟨[]⟩

/-- What is held under a number. -/
def find? (m : Message) (number : Nat) : Option Entry :=
  (m.entries.find? (·.1 == number)).map Prod.snd

/-- The entries with one put in, in the place of an entry of the same number. -/
def insertEntry (number : Nat) (e : Entry) : List (Nat × Entry) → List (Nat × Entry)
  | [] => [(number, e)]
  | (n, d) :: rest =>
    if n = number then (number, e) :: rest
    else if number < n then (number, e) :: (n, d) :: rest
    else (n, d) :: insertEntry number e rest

/-- The message with something put under a number, in the place of what was there. -/
def insert (m : Message) (number : Nat) (e : Entry) : Message :=
  ⟨insertEntry number e m.entries⟩

/-- The message with nothing under a number. -/
def erase (m : Message) (number : Nat) : Message :=
  ⟨m.entries.filter (·.1 != number)⟩

/-- The value of a known field, if it holds one. -/
def value? (m : Message) (number : Nat) : Option Value :=
  match m.find? number with
  | some (.value v) => some v
  | _ => none

/-- The message with a further value of a number that its type does not know. -/
def addUnknown (m : Message) (number : Nat) (v : Wire.WireValue) : Message :=
  match m.find? number with
  | some (.unknown vs) => m.insert number (.unknown (vs ++ [v]))
  | _ => m.insert number (.unknown [v])

/-- Looking up a number in a list of entries into which one was put. -/
theorem find?_insertEntry (number n : Nat) (e : Entry) (entries : List (Nat × Entry)) :
    (insertEntry number e entries).find? (·.1 == n) =
      if n = number then some (number, e) else entries.find? (·.1 == n) := by
  induction entries with
  | nil => simp only [insertEntry, List.find?]; grind
  | cons p rest ih =>
    obtain ⟨k, d⟩ := p
    simp only [insertEntry]
    split <;> (try split) <;> simp only [List.find?] <;> grind

/-- A lookup after something was put under a number. -/
@[simp]
theorem find?_insert (m : Message) (number n : Nat) (e : Entry) :
    (m.insert number e).find? n = if n = number then some e else m.find? n := by
  simp only [find?, insert, find?_insertEntry]
  split <;> rfl

/-- A lookup after a number was cleared. -/
@[simp]
theorem find?_erase (m : Message) (number n : Nat) :
    (m.erase number).find? n = if n = number then none else m.find? n := by
  simp only [find?, erase, List.find?_filter]
  split
  · rename_i h
    subst h
    simp
  · rename_i h
    congr 1
    congr 1
    funext a
    by_cases ha : a.1 = n
    · subst ha; simp [h]
    · have : (a.1 == n) = false := by simpa using ha
      simp [this]

/-- The empty message holds nothing. -/
@[simp]
theorem find?_empty (n : Nat) : empty.find? n = none := rfl

end Message

instance : Inhabited Message := ⟨Message.empty⟩

end ColumnarRecords
