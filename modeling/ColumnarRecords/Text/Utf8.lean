/-!
# UTF-8

The encoding of text in bytes and its strict decoding. A sequence is accepted only in its
shortest form and only for a character: no surrogate and nothing above `0x10FFFF`. A fault says
where the longest well-formed beginning ends, and how many bytes of a malformed sequence stand
there before a byte that cannot belong to it; a sequence that is well-formed as far as it goes,
but cut off by the end, is told apart.
-/

namespace ColumnarRecords.Text.Utf8

/-- Why bytes are not the UTF-8 encoding of a text. -/
structure Fault where
  /-- The number of bytes before the fault, which are well-formed. -/
  validUpTo : Nat
  /-- The number of bytes of the malformed sequence, or none if the end of the bytes cuts it off. -/
  length : Option Nat
deriving DecidableEq, Repr

/-- The wording of a fault. -/
def Fault.message (f : Fault) : String :=
  match f.length with
  | some n => s!"invalid utf-8 sequence of {n} bytes from index {f.validUpTo}"
  | none => s!"incomplete utf-8 byte sequence from index {f.validUpTo}"

/-- A byte of the form `10xxxxxx`. -/
def isContinuation (b : UInt8) : Bool :=
  0x80 ≤ b.toNat && b.toNat < 0xC0

/-- The second byte of a sequence of three is right after the first: shortest form, no surrogate. -/
def isSecondOfThree (first second : UInt8) : Bool :=
  let a := first.toNat
  let b := second.toNat
  if a = 0xE0 then 0xA0 ≤ b && b < 0xC0
  else if a = 0xED then 0x80 ≤ b && b < 0xA0
  else 0x80 ≤ b && b < 0xC0

/-- The second byte of a sequence of four is right after the first: shortest form, at most
`0x10FFFF`. -/
def isSecondOfFour (first second : UInt8) : Bool :=
  let a := first.toNat
  let b := second.toNat
  if a = 0xF0 then 0x90 ≤ b && b < 0xC0
  else if a = 0xF4 then 0x80 ≤ b && b < 0x90
  else 0x80 ≤ b && b < 0xC0

/-- The bits that a continuation byte carries. -/
def payload (b : UInt8) : Nat :=
  b.toNat % 64

/-- The character at the start of the bytes and the bytes after it, or the length of the malformed
sequence there (none if it is cut off by the end). The bytes are not empty. -/
def decodeChar : UInt8 → List UInt8 → Except (Option Nat) (Char × List UInt8)
  | a, rest =>
    let n := a.toNat
    if n < 0x80 then .ok (Char.ofNat n, rest)
    else if 0xC2 ≤ n ∧ n < 0xE0 then
      match rest with
      | [] => .error none
      | b :: rest =>
        if isContinuation b then .ok (Char.ofNat (n % 32 * 64 + payload b), rest)
        else .error (some 1)
    else if 0xE0 ≤ n ∧ n < 0xF0 then
      match rest with
      | [] => .error none
      | b :: rest =>
        if !isSecondOfThree a b then .error (some 1)
        else match rest with
        | [] => .error none
        | c :: rest =>
          if isContinuation c then
            .ok (Char.ofNat ((n % 16 * 64 + payload b) * 64 + payload c), rest)
          else .error (some 2)
    else if 0xF0 ≤ n ∧ n < 0xF5 then
      match rest with
      | [] => .error none
      | b :: rest =>
        if !isSecondOfFour a b then .error (some 1)
        else match rest with
        | [] => .error none
        | c :: rest =>
          if !isContinuation c then .error (some 2)
          else match rest with
          | [] => .error none
          | d :: rest =>
            if isContinuation d then
              .ok (Char.ofNat (((n % 8 * 64 + payload b) * 64 + payload c) * 64 + payload d), rest)
            else .error (some 3)
    else .error (some 1)

/-- What `decodeChar` leaves is no longer than what follows the first byte. -/
theorem decodeChar_length_le {a : UInt8} {rest r : List UInt8} {c : Char}
    (h : decodeChar a rest = .ok (c, r)) : r.length ≤ rest.length := by
  unfold decodeChar at h
  grind

/-- The characters of the bytes from position `at` on. -/
def decodeFrom (start : Nat) : List UInt8 → Except Fault (List Char)
  | [] => .ok []
  | a :: rest =>
    match _h : decodeChar a rest with
    | .error length => .error ⟨start, length⟩
    | .ok (c, r) =>
      match decodeFrom (start + (rest.length + 1 - r.length)) r with
      | .error f => .error f
      | .ok cs => .ok (c :: cs)
termination_by bytes => bytes.length
decreasing_by
  have := decodeChar_length_le _h
  simp only [List.length_cons]
  omega

/-- The text that the bytes encode. -/
def decode (bytes : List UInt8) : Except Fault String :=
  (decodeFrom 0 bytes).map String.ofList

/-- The text that the bytes encode, each malformed sequence being replaced by `U+FFFD`. -/
def decodeLossy : List UInt8 → List Char
  | [] => []
  | a :: rest =>
    match _h : decodeChar a rest with
    | .error none => ['\ufffd']
    | .error (some n) => '\ufffd' :: decodeLossy (rest.drop (n - 1))
    | .ok (c, r) => c :: decodeLossy r
termination_by bytes => bytes.length
decreasing_by
  · simp only [List.length_drop, List.length_cons]
    omega
  · have := decodeChar_length_le _h
    simp only [List.length_cons]
    omega

/-- The encoding of a character. -/
def encodeChar (c : Char) : List UInt8 :=
  let n := c.toNat
  if n < 0x80 then [UInt8.ofNat n]
  else if n < 0x800 then [UInt8.ofNat (0xC0 + n / 64), UInt8.ofNat (0x80 + n % 64)]
  else if n < 0x10000 then
    [UInt8.ofNat (0xE0 + n / 4096), UInt8.ofNat (0x80 + n / 64 % 64), UInt8.ofNat (0x80 + n % 64)]
  else
    [UInt8.ofNat (0xF0 + n / 262144), UInt8.ofNat (0x80 + n / 4096 % 64),
      UInt8.ofNat (0x80 + n / 64 % 64), UInt8.ofNat (0x80 + n % 64)]

/-- The encoding of a text. -/
def encode (s : String) : List UInt8 :=
  s.toList.flatMap encodeChar

end ColumnarRecords.Text.Utf8
