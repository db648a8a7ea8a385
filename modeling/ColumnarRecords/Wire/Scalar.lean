import ColumnarRecords.Wire.Varint

/-!
# Keys and delimited values

The readers of a field's key and of the values that are no varints, each with its writer, and the
words that integers of the several kinds stand for on the wire.
-/

namespace ColumnarRecords.Wire

/-- The field number and the wire type of the key at the start of the bytes. -/
def readKey : Reader (Nat × WireType) := fun input =>
  match readVarint input with
  | .error f => .error f
  | .ok (key, rest) =>
    let n := key.toNat
    if 2 ^ 32 ≤ n then .error (.invalidKey n)
    else
      match WireType.ofCode? (n % 8) with
      | none => .error (.invalidWireType (n % 8))
      | some w => if n / 8 = 0 then .error .invalidTag else .ok ((n / 8, w), rest)

/-- The key of a field. -/
def encodeKey (number : Nat) (w : WireType) : List UInt8 :=
  varintOfNat (number * 8 + w.code)

/-- The number whose bytes these are, lowest first. -/
def ofLittleEndian : List UInt8 → Nat
  | [] => 0
  | b :: rest => b.toNat + 256 * ofLittleEndian rest

/-- The lowest `count` bytes of a number, lowest first. -/
def littleEndian : (count : Nat) → Nat → List UInt8
  | 0, _ => []
  | count + 1, n => UInt8.ofNat (n % 256) :: littleEndian count (n / 256)

/-- Four bytes, little endian. -/
def readFixed32 : Reader UInt32 := fun input =>
  if input.length < 4 then .error .underflow
  else .ok (UInt32.ofNat (ofLittleEndian (input.take 4)), input.drop 4)

/-- Eight bytes, little endian. -/
def readFixed64 : Reader UInt64 := fun input =>
  if input.length < 8 then .error .underflow
  else .ok (UInt64.ofNat (ofLittleEndian (input.take 8)), input.drop 8)

/-- The four bytes of a word. -/
def encodeFixed32 (n : UInt32) : List UInt8 :=
  littleEndian 4 n.toNat

/-- The eight bytes of a word. -/
def encodeFixed64 (n : UInt64) : List UInt8 :=
  littleEndian 8 n.toNat

/-- As many bytes as the varint before them says. -/
def readDelimited : Reader (List UInt8) := fun input =>
  match readVarint input with
  | .error f => .error f
  | .ok (n, rest) =>
    if rest.length < n.toNat then .error .underflow
    else .ok (rest.take n.toNat, rest.drop n.toNat)

/-- Bytes after their number. -/
def encodeDelimited (bytes : List UInt8) : List UInt8 :=
  varintOfNat bytes.length ++ bytes

/-- The field has the wire type that its kind wants. -/
def expect (expected actual : WireType) : Except Fault Unit :=
  if actual = expected then .ok () else .error (.wrongWireType actual expected)

/-- The signed word that a zigzag word of 32 bits stands for: `0, -1, 1, -2, …` in turn. -/
def unzigzag32 (n : UInt32) : Int32 :=
  ((n >>> 1) ^^^ (-(n &&& 1))).toInt32

/-- The signed word that a zigzag word of 64 bits stands for: `0, -1, 1, -2, …` in turn. -/
def unzigzag64 (n : UInt64) : Int64 :=
  ((n >>> 1) ^^^ (-(n &&& 1))).toInt64

/-- The zigzag word of a signed word of 32 bits. -/
def zigzag32 (n : Int32) : UInt32 :=
  let w := n.toUInt32
  (w <<< 1) ^^^ (-(w >>> 31))

/-- The zigzag word of a signed word of 64 bits. -/
def zigzag64 (n : Int64) : UInt64 :=
  let w := n.toUInt64
  (w <<< 1) ^^^ (-(w >>> 63))

/-- The word of 64 bits that stands for a signed word of 32 bits in a varint: its sign is
extended. -/
def signExtend (n : Int32) : UInt64 :=
  n.toInt64.toUInt64

/-- A number of `count` bytes is read back from them. -/
theorem ofLittleEndian_littleEndian (count n : Nat) (h : n < 256 ^ count) :
    ofLittleEndian (littleEndian count n) = n := by
  induction count generalizing n with
  | zero => simp at h; simp [littleEndian, ofLittleEndian, h]
  | succ count ih =>
    have hd : n / 256 < 256 ^ count := by
      rw [Nat.pow_succ] at h
      exact Nat.div_lt_of_lt_mul (by omega)
    simp only [littleEndian, ofLittleEndian, ih _ hd, UInt8.toNat_ofNat']
    omega

/-- The bytes are as many as asked for. -/
@[simp]
theorem length_littleEndian (count n : Nat) : (littleEndian count n).length = count := by
  induction count generalizing n with
  | zero => rfl
  | succ count ih => simp [littleEndian, ih]

/-- A word is read back from its four bytes. -/
theorem readFixed32_encodeFixed32 (n : UInt32) (rest : List UInt8) :
    readFixed32 (encodeFixed32 n ++ rest) = .ok (n, rest) := by
  have hn : n.toNat < 256 ^ 4 := by have := n.toNat_lt; omega
  simp [readFixed32, encodeFixed32, ofLittleEndian_littleEndian 4 _ hn]

/-- A word is read back from its eight bytes. -/
theorem readFixed64_encodeFixed64 (n : UInt64) (rest : List UInt8) :
    readFixed64 (encodeFixed64 n ++ rest) = .ok (n, rest) := by
  have hn : n.toNat < 256 ^ 8 := by have := n.toNat_lt; omega
  simp [readFixed64, encodeFixed64, ofLittleEndian_littleEndian 8 _ hn]

end ColumnarRecords.Wire
