import ColumnarRecords.Text.Numeral
import ColumnarRecords.Text.Utf8

/-!
# Escaped bytes

Bytes written as text between quotes, as the text format has them. A printable ASCII character
stands for itself, apart from quotes and backslashes; three controls have a letter; all other bytes
are written with three octal digits. The reader takes more: further letters, hexadecimal digits,
and characters by code point, which stand for their UTF-8 bytes. Schemas write the default values of
bytes with escapes of their own, which `decodePlain?` reads.
-/

namespace ColumnarRecords.Text.Escape

/-- The byte of an escape of one letter. -/
def letter? : Char → Option UInt8
  | 'a' => some 7
  | 'b' => some 8
  | 'f' => some 12
  | 'n' => some 10
  | 'r' => some 13
  | 't' => some 9
  | 'v' => some 11
  | '?' => some 63
  | '\\' => some 92
  | '\'' => some 39
  | '"' => some 34
  | _ => none

/-- The number that digits of a base write. -/
def number (base : Nat) (digits : List Char) : Nat :=
  digits.foldl (fun n c => n * base + (Numeral.digitIn? base c).getD 0) 0

/-- The character is a digit of the base. -/
def isDigitIn (base : Nat) (c : Char) : Bool :=
  (Numeral.digitIn? base c).isSome

/-- The character given by exactly as many hexadecimal digits, and the text after them. -/
def codePoint? (count : Nat) (s : List Char) : Option (Char × List Char) :=
  let digits := s.take count
  let n := number 16 digits
  if digits.length = count ∧ digits.all (isDigitIn 16) ∧ n.isValidChar then
    some (Char.ofNat n, s.drop count)
  else none

/-- Digits are taken from the start of the text. -/
theorem codePoint?_length_le {count : Nat} {s rest : List Char} {c : Char}
    (h : codePoint? count s = some (c, rest)) : rest.length ≤ s.length := by
  simp only [codePoint?, Option.ite_none_right_eq_some, Option.some.injEq, Prod.mk.injEq] at h
  rw [← h.2.2]
  simp

/-- The bytes of the escape whose backslash has been read, and the text after it. -/
def read? : List Char → Option (List UInt8 × List Char)
  | [] => none
  | 'x' :: rest =>
    let digits := (rest.take 2).takeWhile (isDigitIn 16)
    if digits = [] then none
    else some ([UInt8.ofNat (number 16 digits)], rest.drop digits.length)
  | 'u' :: rest => (codePoint? 4 rest).map fun r => (Utf8.encodeChar r.1, r.2)
  | 'U' :: rest => (codePoint? 8 rest).map fun r => (Utf8.encodeChar r.1, r.2)
  | c :: rest =>
    match letter? c with
    | some b => some ([b], rest)
    | none =>
      let digits := ((c :: rest).take 3).takeWhile (isDigitIn 8)
      let n := number 8 digits
      if digits = [] ∨ 255 < n then none
      else some ([UInt8.ofNat n], (c :: rest).drop digits.length)

/-- An escape leaves less text than there was. -/
theorem read?_length_lt {s rest : List Char} {bytes : List UInt8}
    (h : read? s = some (bytes, rest)) : rest.length < s.length := by
  unfold read? at h
  split at h
  · simp at h
  · simp only [Option.ite_none_left_eq_some, Option.some.injEq, Prod.mk.injEq] at h
    rw [← h.2.2]
    simp only [List.length_drop, List.length_cons]
    omega
  · obtain ⟨r, hr, he⟩ := Option.map_eq_some_iff.1 h
    have := codePoint?_length_le hr
    grind
  · obtain ⟨r, hr, he⟩ := Option.map_eq_some_iff.1 h
    have := codePoint?_length_le hr
    grind
  · split at h
    · simp only [Option.some.injEq, Prod.mk.injEq] at h
      rw [← h.2]
      simp
    · simp only [Option.ite_none_left_eq_some, Option.some.injEq, Prod.mk.injEq] at h
      obtain ⟨hd, -, rfl⟩ := h
      rw [not_or] at hd
      have := List.length_pos_iff.2 hd.1
      simp only [List.length_drop, List.length_cons]
      omega

/-- The byte of the escape whose backslash has been read, and the text after it, for the escapes of
schemas: those of one letter, those of octal digits, of which the low eight bits count, and those of
two hexadecimal digits, the first of which may be a plus sign; a single one ends the text. -/
def readPlain? : List Char → Option (UInt8 × List Char)
  | [] => none
  | c :: rest =>
    if c = 'x' ∨ c = 'X' then
      match rest with
      | a :: b :: after =>
        if (a = '+' ∨ isDigitIn 16 a) ∧ isDigitIn 16 b then
          some (UInt8.ofNat (number 16 [a, b]), after)
        else none
      | [a] => if isDigitIn 16 a then some (UInt8.ofNat (number 16 [a]), []) else none
      | [] => none
    else
      match letter? c with
      | some b => some (b, rest)
      | none =>
        let digits := ((c :: rest).take 3).takeWhile (isDigitIn 8)
        if digits = [] then none
        else some (UInt8.ofNat (number 8 digits), (c :: rest).drop digits.length)

/-- An escape of schemas leaves less text than there was. -/
theorem readPlain?_length_lt {s rest : List Char} {b : UInt8}
    (h : readPlain? s = some (b, rest)) : rest.length < s.length := by
  unfold readPlain? at h
  split at h
  · simp at h
  · split at h
    · split at h
      · simp only [Option.ite_none_right_eq_some, Option.some.injEq, Prod.mk.injEq] at h
        rw [← h.2.2]
        simp only [List.length_cons]
        omega
      · simp only [Option.ite_none_right_eq_some, Option.some.injEq, Prod.mk.injEq] at h
        rw [← h.2.2]
        simp
      · simp at h
    · split at h
      · simp only [Option.some.injEq, Prod.mk.injEq] at h
        rw [← h.2]
        simp
      · simp only [Option.ite_none_left_eq_some, Option.some.injEq, Prod.mk.injEq] at h
        obtain ⟨hd, -, rfl⟩ := h
        have := List.length_pos_iff.2 hd
        simp only [List.length_drop, List.length_cons]
        omega

/-- The bytes of a text in which all escapes of schemas are read, if they are well-formed. -/
def decodePlain? : List Char → Option (List UInt8)
  | [] => some []
  | '\\' :: rest =>
    match _h : readPlain? rest with
    | none => none
    | some (b, after) => (decodePlain? after).map (b :: ·)
  | c :: rest => (decodePlain? rest).map (Utf8.encodeChar c ++ ·)
termination_by s => s.length
decreasing_by
  · have := readPlain?_length_lt _h
    simp only [List.length_cons]
    omega
  · simp

/-- A byte as it stands between the quotes. -/
def encodeByte (b : UInt8) : List Char :=
  if b = 9 then ['\\', 't']
  else if b = 10 then ['\\', 'n']
  else if b = 13 then ['\\', 'r']
  else if b = 34 then ['\\', '"']
  else if b = 39 then ['\\', '\'']
  else if b = 92 then ['\\', '\\']
  else if 32 ≤ b.toNat ∧ b.toNat < 127 then [Char.ofNat b.toNat]
  else
    ['\\', Nat.digitChar (b.toNat / 64), Nat.digitChar (b.toNat / 8 % 8),
      Nat.digitChar (b.toNat % 8)]

/-- Bytes between double quotes. -/
def quotedBytes (bytes : List UInt8) : List Char :=
  '"' :: bytes.flatMap encodeByte ++ ['"']

end ColumnarRecords.Text.Escape
