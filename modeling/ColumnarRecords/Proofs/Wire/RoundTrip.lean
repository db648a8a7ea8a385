import ColumnarRecords.Descriptor.Basic
import ColumnarRecords.Proofs.Text.Utf8
import ColumnarRecords.Proofs.Wire.Local

/-!
# What is written is read back

Keys, what is delimited, and the words of the several kinds of integers, each read back from what is
written for it, whatever follows. The zigzag words are for both widths one fact about the bits of a
word (`unzigzag_zigzag`). The bytes of a varint say how large the number can be, and the other way
round (`length_varintOfNat_le`, `mem_varintOfNat`).
-/

namespace ColumnarRecords.Wire

/-- A number that fits a word is read back from its shortest varint. -/
theorem readVarint_varintOfNat {n : Nat} (h : n < 2 ^ 64) (rest : List UInt8) :
    readVarint (varintOfNat n ++ rest) = .ok (UInt64.ofNat n, rest) := by
  rw [readVarint, readVarintAt_varintOfNat 0 n rest (by omega) (by omega)]

/-- A key is read back if its number is one that a field can have. -/
theorem readKey_encodeKey {number : Nat} (h : 1 ≤ number ∧ number ≤ Descriptor.maxFieldNumber)
    (w : WireType) (rest : List UInt8) :
    readKey (encodeKey number w ++ rest) = .ok ((number, w), rest) := by
  have hmax : number < 2 ^ 29 := by
    have hle := h.2
    unfold Descriptor.maxFieldNumber at hle
    omega
  have hcode : w.code < 8 := by cases w <;> decide
  have hword : (UInt64.ofNat (number * 8 + w.code)).toNat = number * 8 + w.code := by
    rw [UInt64.toNat_ofNat']
    omega
  rw [readKey_eq_andThen, andThen, encodeKey, readVarint_varintOfNat (by omega)]
  -- The word is split into the number and the wire type, which are both in range.
  simp only [keyOfWord, hword]
  rw [if_neg (by omega), show (number * 8 + w.code) % 8 = w.code by omega,
    show (number * 8 + w.code) / 8 = number by omega, WireType.ofCode?_code]
  exact if_neg (by omega)

/-- What is delimited is read back if its length fits a word. -/
theorem readDelimited_encodeDelimited {bytes : List UInt8} (h : bytes.length < 2 ^ 64)
    (rest : List UInt8) :
    readDelimited (encodeDelimited bytes ++ rest) = .ok (bytes, rest) := by
  have hcount : (UInt64.ofNat bytes.length).toNat = bytes.length := by
    rw [UInt64.toNat_ofNat']
    omega
  rw [readDelimited_eq_andThen, andThen, encodeDelimited, List.append_assoc,
    readVarint_varintOfNat h]
  simp only [hcount]
  rw [if_neg (by rw [List.length_append]; omega), List.take_left, List.drop_left]
  rfl

/-- What is delimited has a byte. -/
theorem encodeDelimited_ne_nil (bytes : List UInt8) : encodeDelimited bytes ≠ [] := by
  unfold encodeDelimited
  rw [varintOfNat]
  split <;> simp

/-- A text is read back if its length fits a word. -/
theorem readText_encode {s : String} (h : (Text.Utf8.encode s).length < 2 ^ 64)
    (rest : List UInt8) :
    Layout.readText (encodeDelimited (Text.Utf8.encode s) ++ rest) = .ok (s, rest) := by
  rw [readText_eq_andThen, andThen, readDelimited_encodeDelimited h]
  simp only [textOf, Text.Utf8.decode_encode]

section Zigzag

variable {k : Nat} {w : BitVec (k + 1)}

/-- The high bit of a word that has none. -/
theorem shiftRight_eq_zero (h : w.toNat < 2 ^ k) : w >>> k = 0#(k + 1) := by
  apply BitVec.eq_of_toNat_eq
  rw [BitVec.toNat_ushiftRight, Nat.shiftRight_eq_div_pow, Nat.div_eq_of_lt h]
  rfl

/-- The number one as a word. -/
theorem toNat_one (k : Nat) : (1#(k + 1)).toNat = 1 :=
  Nat.mod_eq_of_lt (Nat.one_lt_two_pow (by omega))

/-- The high bit of a word that has one. -/
theorem shiftRight_eq_one (h : 2 ^ k ≤ w.toNat) : w >>> k = 1#(k + 1) := by
  have hlt : w.toNat < (1 + 1) * 2 ^ k := by
    have hw := w.isLt
    rw [Nat.pow_succ] at hw
    omega
  apply BitVec.eq_of_toNat_eq
  rw [BitVec.toNat_ushiftRight, Nat.shiftRight_eq_div_pow,
    Nat.div_eq_of_lt_le (k := 1) (by omega) hlt, toNat_one]

/-- The low bit of a word says whether its number is odd. -/
theorem and_one_eq (z : BitVec (k + 1)) : z &&& 1#(k + 1) = BitVec.ofNat (k + 1) (z.toNat % 2) := by
  apply BitVec.eq_of_toNat_eq
  have hlt : z.toNat % 2 < 2 ^ (k + 1) :=
    Nat.lt_of_lt_of_le (Nat.mod_lt _ (by omega)) (Nat.one_lt_two_pow (n := k + 1) (by omega))
  rw [BitVec.toNat_and, toNat_one, Nat.and_one_is_mod, BitVec.toNat_ofNat, Nat.mod_eq_of_lt hlt]

/-- A word is the one that its zigzag word stands for: the sign, which the zigzag word has as its
low bit, says of all others whether they are turned over. -/
theorem unzigzag_zigzag (w : BitVec (k + 1)) :
    let z := (w <<< 1) ^^^ (-(w >>> k))
    (z >>> 1) ^^^ (-(z &&& 1#(k + 1))) = w := by
  intro z
  have hpow : 2 ^ (k + 1) = 2 * 2 ^ k := by
    rw [Nat.pow_succ]
    omega
  have hw : w.toNat < 2 * 2 ^ k := hpow ▸ w.isLt
  have hshift : (w <<< 1).toNat = 2 * w.toNat % (2 * 2 ^ k) := by
    rw [BitVec.toNat_shiftLeft, Nat.shiftLeft_eq, hpow, Nat.mul_comm]
  -- A word with the sign bit is doubled and turned over, one without it is only doubled.
  by_cases h : w.toNat < 2 ^ k
  · have hz : z = w <<< 1 := by
      simp only [z, shiftRight_eq_zero h, BitVec.neg_zero, BitVec.xor_zero]
    have hnat : z.toNat = 2 * w.toNat := by
      rw [hz, hshift, Nat.mod_eq_of_lt (by omega)]
    rw [and_one_eq, show z.toNat % 2 = 0 by omega, BitVec.neg_zero, BitVec.xor_zero]
    apply BitVec.eq_of_toNat_eq
    rw [BitVec.toNat_ushiftRight, hnat, Nat.shiftRight_eq_div_pow]
    omega
  · have hz : z = ~~~(w <<< 1) := by
      simp only [z, shiftRight_eq_one (Nat.le_of_not_lt h), BitVec.neg_one_eq_allOnes,
        BitVec.xor_allOnes]
    have hnat : z.toNat = 2 * 2 ^ k - 1 - (2 * w.toNat - 2 * 2 ^ k) := by
      rw [hz, BitVec.toNat_not, hshift, hpow, Nat.mod_eq_sub_mod (by omega),
        Nat.mod_eq_of_lt (by omega)]
    rw [and_one_eq, show z.toNat % 2 = 1 by omega, BitVec.neg_one_eq_allOnes, BitVec.xor_allOnes]
    apply BitVec.eq_of_toNat_eq
    rw [BitVec.toNat_not, BitVec.toNat_ushiftRight, hnat, Nat.shiftRight_eq_div_pow]
    omega

/-- A signed word of 32 bits is the one that its zigzag word stands for. -/
theorem unzigzag32_zigzag32 (n : Int32) : unzigzag32 (zigzag32 n) = n := by
  apply Int32.toBitVec_inj.1
  exact unzigzag_zigzag n.toBitVec

/-- A signed word of 64 bits is the one that its zigzag word stands for. -/
theorem unzigzag64_zigzag64 (n : Int64) : unzigzag64 (zigzag64 n) = n := by
  apply Int64.toBitVec_inj.1
  exact unzigzag_zigzag n.toBitVec

end Zigzag

/-! ## The bytes of a varint -/

/-- A varint has no more bytes than it needs for its number. -/
theorem length_varintOfNat_le {n count : Nat} (hpos : 0 < count) (h : n < 128 ^ count) :
    (varintOfNat n).length ≤ count := by
  induction count generalizing n with
  | zero => omega
  | succ count ih =>
    rw [varintOfNat]
    split
    · simp
    · rename_i hlong
      rw [Nat.pow_succ] at h
      have hcount : 0 < count := by
        rcases Nat.eq_zero_or_pos count with rfl | hcount
        · omega
        · exact hcount
      have hrest := ih hcount (n := n / 128) (by omega)
      rw [List.length_cons]
      omega

/-- Every byte of a varint but the last holds seven bits of the number. -/
theorem mem_varintOfNat {n : Nat} (place : Nat) (h : 128 ≤ n / 128 ^ place) :
    UInt8.ofNat (n / 128 ^ place % 128 + 128) ∈ varintOfNat n := by
  induction place generalizing n with
  | zero =>
    rw [Nat.pow_zero, Nat.div_one] at h ⊢
    rw [varintOfNat, if_neg (by omega)]
    exact List.mem_cons_self
  | succ place ih =>
    rw [Nat.pow_succ, Nat.mul_comm, ← Nat.div_div_eq_div_mul] at h ⊢
    have hlong : 128 ≤ n := by
      have hle : n / 128 / 128 ^ place ≤ n / 128 := Nat.div_le_self _ _
      omega
    rw [varintOfNat, if_neg (by omega)]
    exact List.mem_cons_of_mem _ (ih h)

/-- The word of 64 bits that a signed word of 32 is extended to. -/
theorem toNat_signExtend (id : Int32) : ((signExtend id).toNat : Int) =
    if 0 ≤ id.toInt then id.toInt else id.toInt + 2 ^ 64 := by
  have hword : (signExtend id).toNat = id.toInt64.toBitVec.toNat := rfl
  have hint : id.toInt64.toBitVec.toInt = id.toInt := Int32.toInt_toInt64 id
  rw [BitVec.toInt_eq_toNat_cond] at hint
  have hlt := id.toInt64.toBitVec.isLt
  rw [hword]
  split at hint <;> split <;> omega

end ColumnarRecords.Wire
