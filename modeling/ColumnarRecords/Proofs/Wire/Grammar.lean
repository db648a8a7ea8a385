import ColumnarRecords.Proofs.Wire.RoundTrip

/-!
# Which bytes are a varint

A varint is a run of bytes with the high bit and one byte without it, ten bytes at most, of which
the tenth is zero or one (`IsVarint`). The reader accepts these and no others, and the word that it
gives is the number of which the bytes hold seven bits each (`readVarint_eq_ok_iff`); the limit on
the tenth byte is what keeps this number below the largest word (`IsVarintAt.sevens_lt`).

What a zigzag word stands for is said by arithmetic too: half of an even word, and of an odd one the
half that is left, turned over (`toInt_unzigzag`).
-/

namespace ColumnarRecords.Wire

/-- The number of which bytes hold seven bits each, lowest first. -/
def sevens : List UInt8 → Nat
  | [] => 0
  | b :: rest => b.toNat % 128 + 128 * sevens rest

/-- The bytes are what a varint has from a place on. -/
def IsVarintAt (place : Nat) (bytes : List UInt8) : Prop :=
  ∃ before last, bytes = before ++ [last] ∧ (∀ b ∈ before, 128 ≤ b.toNat) ∧ last.toNat < 128 ∧
    place + before.length ≤ 9 ∧ (place + before.length = 9 → last.toNat ≤ 1)

/-- The bytes are one varint: all but the last have the high bit, there are ten at most, and the
tenth is zero or one. -/
def IsVarint (bytes : List UInt8) : Prop := IsVarintAt 0 bytes

/-- Bytes that follow others hold the higher bits. -/
theorem sevens_append (a b : List UInt8) :
    sevens (a ++ b) = sevens a + 128 ^ a.length * sevens b := by
  induction a with
  | nil => simp [sevens]
  | cons x rest ih =>
    rw [List.cons_append, sevens, sevens, ih, List.length_cons, Nat.pow_succ', Nat.mul_add,
      Nat.mul_assoc, Nat.add_assoc]

/-- Each byte holds seven bits and no more. -/
theorem sevens_lt_pow (bytes : List UInt8) : sevens bytes < 128 ^ bytes.length := by
  induction bytes with
  | nil => exact Nat.one_pos
  | cons b rest ih =>
    have hlow : b.toNat % 128 < 128 := Nat.mod_lt _ (by omega)
    rw [sevens, List.length_cons, Nat.pow_succ]
    omega

/-- What a varint holds fits a word: nine bytes hold 63 bits, and the tenth is a bit. -/
theorem IsVarint.sevens_lt {bytes : List UInt8} (h : IsVarint bytes) : sevens bytes < 2 ^ 64 := by
  obtain ⟨before, last, rfl, -, hlast, hlen, htenth⟩ := h
  rw [Nat.zero_add] at hlen htenth
  have hbefore := sevens_lt_pow before
  have hsum : sevens (before ++ [last]) = sevens before + 128 ^ before.length * last.toNat := by
    rw [sevens_append, sevens, sevens, Nat.mod_eq_of_lt hlast, Nat.mul_zero, Nat.add_zero]
  rcases Nat.lt_or_eq_of_le hlen with hshort | hlong
  · calc sevens (before ++ [last])
        < 128 ^ (before ++ [last]).length := sevens_lt_pow _
      _ ≤ 128 ^ 9 := Nat.pow_le_pow_right (by omega) (by
          rw [List.length_append, List.length_singleton]
          omega)
      _ ≤ 2 ^ 64 := by decide
  · have htop := htenth hlong
    rw [hlong] at hbefore hsum
    have hone : 128 ^ 9 * last.toNat ≤ 128 ^ 9 * 1 := Nat.mul_le_mul_left _ htop
    omega

/-- The word of a varint is the number that it holds. -/
theorem IsVarint.toNat_word {bytes : List UInt8} (h : IsVarint bytes) :
    (UInt64.ofNat (sevens bytes)).toNat = sevens bytes := by
  rw [UInt64.toNat_ofNat', Nat.mod_eq_of_lt h.sevens_lt]

/-- No bytes are no varint. -/
theorem not_isVarintAt_nil (place : Nat) : ¬IsVarintAt place [] := by
  rintro ⟨before, last, hnil, -⟩
  exact List.append_ne_nil_of_right_ne_nil before (List.cons_ne_nil last []) hnil.symm

/-- A byte without the high bit is the last one, and one with it has others after it. -/
theorem isVarintAt_cons {place : Nat} {b : UInt8} {rest : List UInt8} :
    IsVarintAt place (b :: rest) ↔
      if b.toNat < 128 then rest = [] ∧ place ≤ 9 ∧ (place = 9 → b.toNat ≤ 1)
      else IsVarintAt (place + 1) rest := by
  constructor
  · rintro ⟨before, last, hbytes, hhigh, hlast, hlen, htenth⟩
    cases before with
    | nil =>
      obtain ⟨rfl, rfl⟩ := List.cons.inj hbytes
      rw [if_pos hlast]
      exact ⟨rfl, hlen, htenth⟩
    | cons c before =>
      obtain ⟨rfl, rfl⟩ := List.cons.inj hbytes
      have hb : 128 ≤ b.toNat := hhigh b List.mem_cons_self
      rw [if_neg (by omega)]
      rw [List.length_cons] at hlen htenth
      exact ⟨before, last, rfl, fun x hx => hhigh x (List.mem_cons_of_mem _ hx), hlast, by omega,
        fun h => htenth (by omega)⟩
  · intro h
    by_cases hb : b.toNat < 128
    · rw [if_pos hb] at h
      obtain ⟨rfl, hplace, htenth⟩ := h
      exact ⟨[], b, rfl, fun x hx => absurd hx List.not_mem_nil, hb, hplace, htenth⟩
    · rw [if_neg hb] at h
      obtain ⟨before, last, rfl, hhigh, hlast, hlen, htenth⟩ := h
      refine ⟨b :: before, last, rfl, ?_, hlast, ?_, ?_⟩
      · rintro x (_ | ⟨_, hx⟩)
        · exact Nat.le_of_not_lt hb
        · exact hhigh x hx
      · rw [List.length_cons]
        omega
      · rw [List.length_cons]
        exact fun h => htenth (by omega)

/-- A byte without the high bit holds itself. -/
theorem sevens_singleton {b : UInt8} (h : b.toNat < 128) : sevens [b] = b.toNat := by
  rw [sevens, sevens, Nat.mul_zero, Nat.add_zero, Nat.mod_eq_of_lt h]

/-- A byte with the high bit holds what is left without it. -/
theorem sevens_cons {b : UInt8} (h : ¬b.toNat < 128) (v : List UInt8) :
    sevens (b :: v) = b.toNat - 128 + 128 * sevens v := by
  have hb := b.toNat_lt
  rw [sevens]
  omega

/-- What a varint has from a place on is read, whatever follows. -/
theorem readVarintAt_append {place : Nat} {v : List UInt8} (hv : IsVarintAt place v)
    (rest : List UInt8) : readVarintAt place (v ++ rest) = .ok (sevens v, rest) := by
  induction v generalizing place with
  | nil => exact absurd hv (not_isVarintAt_nil place)
  | cons b v ih =>
    rw [isVarintAt_cons] at hv
    rw [List.cons_append, readVarintAt]
    by_cases hlow : b.toNat < 128
    · rw [if_pos hlow] at hv
      obtain ⟨rfl, hplace, htenth⟩ := hv
      have hsmall : ¬(place = 9 ∧ 2 ≤ b.toNat) := by
        rintro ⟨hlast, hlarge⟩
        have htop := htenth hlast
        omega
      rw [if_neg hsmall, if_pos hlow, sevens_singleton hlow, List.nil_append]
    · rw [if_neg hlow] at hv
      -- Others follow, so this is not the tenth.
      have hplace : place ≠ 9 := by
        obtain ⟨before, last, -, -, -, hlen, -⟩ := hv
        omega
      rw [if_neg fun h => hplace h.1, if_neg hlow, ih hv, sevens_cons hlow]

/-- Whatever is read from a place on is what a varint has there. -/
theorem exists_of_readVarintAt {place n : Nat} {input rest : List UInt8} (hplace : place ≤ 9)
    (h : readVarintAt place input = .ok (n, rest)) :
    ∃ v, input = v ++ rest ∧ IsVarintAt place v ∧ n = sevens v := by
  induction input generalizing place n with
  | nil => cases h
  | cons b input ih =>
    rw [readVarintAt] at h
    by_cases hlarge : place = 9 ∧ 2 ≤ b.toNat
    · rw [if_pos hlarge] at h
      cases h
    rw [if_neg hlarge] at h
    by_cases hlow : b.toNat < 128
    · rw [if_pos hlow] at h
      obtain ⟨rfl, rfl⟩ := Prod.mk.inj (Except.ok.inj h)
      refine ⟨[b], rfl, ?_, (sevens_singleton hlow).symm⟩
      rw [isVarintAt_cons, if_pos hlow]
      exact ⟨rfl, hplace, fun hlast => by omega⟩
    · rw [if_neg hlow] at h
      cases hread : readVarintAt (place + 1) input with
      | error f =>
        rw [hread] at h
        cases h
      | ok r =>
        rw [hread] at h
        obtain ⟨rfl, rfl⟩ := Prod.mk.inj (Except.ok.inj h)
        obtain ⟨v, rfl, hv, hn⟩ := ih (by omega) hread
        refine ⟨b :: v, rfl, ?_, ?_⟩
        · rwa [isVarintAt_cons, if_neg hlow]
        · rw [sevens_cons hlow, hn]

/-- A word is read exactly from the bytes of a varint, and is the number that they hold. -/
theorem readVarint_eq_ok_iff {n : UInt64} {input rest : List UInt8} :
    readVarint input = .ok (n, rest) ↔
      ∃ v, input = v ++ rest ∧ IsVarint v ∧ n.toNat = sevens v := by
  constructor
  · intro h
    unfold readVarint at h
    cases hread : readVarintAt 0 input with
    | error f =>
      rw [hread] at h
      cases h
    | ok r =>
      rw [hread] at h
      obtain ⟨rfl, rfl⟩ := Prod.mk.inj (Except.ok.inj h)
      obtain ⟨v, hinput, hv, hn⟩ := exists_of_readVarintAt (by omega) hread
      exact ⟨v, hinput, hv, by rw [hn, IsVarint.toNat_word hv]⟩
  · rintro ⟨v, rfl, hv, hn⟩
    rw [readVarint, readVarintAt_append hv, ← hn]
    simp only [UInt64.ofNat_toNat]

/-- Bytes that start with no varint are a fault, and those of no varint only. -/
theorem readVarint_eq_error_iff {input : List UInt8} :
    (∃ fault, readVarint input = .error fault) ↔
      ∀ v rest, input = v ++ rest → ¬IsVarint v := by
  constructor
  · rintro ⟨fault, hfault⟩ v rest hinput hv
    rw [readVarint_eq_ok_iff.2 ⟨v, hinput, hv, hv.toNat_word⟩] at hfault
    cases hfault
  · intro hnone
    cases hread : readVarint input with
    | error fault => exact ⟨fault, rfl⟩
    | ok r =>
      obtain ⟨v, hinput, hv, -⟩ := readVarint_eq_ok_iff.1 hread
      exact absurd hv (hnone v r.2 hinput)

/-- Each byte of a number counts less than the next one. -/
theorem ofLittleEndian_lt (bytes : List UInt8) : ofLittleEndian bytes < 256 ^ bytes.length := by
  induction bytes with
  | nil => exact Nat.one_pos
  | cons b rest ih =>
    have hb := b.toNat_lt
    rw [ofLittleEndian, List.length_cons, Nat.pow_succ]
    omega

/-! ## Zigzag words as numbers -/

/-- The number that a zigzag word stands for: `0, -1, 1, -2, …` in turn. -/
def zigzagOf (n : Nat) : Int :=
  if n % 2 = 0 then (n / 2 : Nat) else -(n / 2 : Nat) - 1

/-- A word is turned back from its zigzag form as its number says. -/
theorem toInt_unzigzag {k : Nat} (z : BitVec (k + 1)) :
    ((z >>> 1) ^^^ (-(z &&& 1#(k + 1)))).toInt = zigzagOf z.toNat := by
  have hpow : 2 ^ (k + 1) = 2 * 2 ^ k := by
    rw [Nat.pow_succ, Nat.mul_comm]
  have hhalf : (z >>> 1).toNat = z.toNat / 2 := by
    rw [BitVec.toNat_ushiftRight, Nat.shiftRight_eq_div_pow, Nat.pow_one]
  have hz := z.isLt
  unfold zigzagOf
  rcases Nat.mod_two_eq_zero_or_one z.toNat with heven | hodd
  · rw [and_one_eq, heven, if_pos rfl, BitVec.neg_zero, BitVec.xor_zero, BitVec.toInt_eq_toNat_cond,
      hhalf, if_pos (by omega)]
  · have hnot : (~~~(z >>> 1)).toNat = 2 ^ (k + 1) - 1 - z.toNat / 2 := by
      rw [BitVec.toNat_not, hhalf]
    rw [and_one_eq, hodd, if_neg (by omega), BitVec.neg_one_eq_allOnes, BitVec.xor_allOnes,
      BitVec.toInt_eq_toNat_cond, hnot, if_neg (by omega)]
    omega

/-- The number of a signed word of 32 bits that a zigzag word stands for. -/
theorem toInt_unzigzag32 (n : UInt32) : (unzigzag32 n).toInt = zigzagOf n.toNat :=
  toInt_unzigzag n.toBitVec

/-- The number of a signed word of 64 bits that a zigzag word stands for. -/
theorem toInt_unzigzag64 (n : UInt64) : (unzigzag64 n).toInt = zigzagOf n.toNat :=
  toInt_unzigzag n.toBitVec

end ColumnarRecords.Wire
