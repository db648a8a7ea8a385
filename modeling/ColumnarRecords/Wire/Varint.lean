import ColumnarRecords.Wire.Basic

/-!
# Varints

A 64-bit word as bytes of seven bits each, lowest first, every byte but the last with its high
bit set. A reader takes at most ten bytes and refuses a tenth above one, so what it reads always
fits the word; it accepts forms longer than the shortest. `readVarint_encodeVarint` says that it
inverts the writer whatever follows, and `readVarint_length_lt` that it consumes a byte.
-/

namespace ColumnarRecords.Wire

/-- The number whose byte at position `place` comes next, and the bytes after it. -/
def readVarintAt (place : Nat) : Reader Nat
  | [] => .error .invalidVarint
  | b :: rest =>
    if place = 9 ∧ 2 ≤ b.toNat then .error .invalidVarint
    else if b.toNat < 128 then .ok (b.toNat, rest)
    else
      match readVarintAt (place + 1) rest with
      | .error f => .error f
      | .ok (n, rest) => .ok (b.toNat - 128 + 128 * n, rest)

/-- The word at the start of the bytes. -/
def readVarint : Reader UInt64 := fun input =>
  match readVarintAt 0 input with
  | .error f => .error f
  | .ok (n, rest) => .ok (UInt64.ofNat n, rest)

/-- The shortest varint of a number. -/
def varintOfNat (n : Nat) : List UInt8 :=
  if n < 128 then [UInt8.ofNat n] else UInt8.ofNat (n % 128 + 128) :: varintOfNat (n / 128)
termination_by n
decreasing_by omega

/-- The shortest varint of a word. -/
def encodeVarint (n : UInt64) : List UInt8 :=
  varintOfNat n.toNat

/-- A number that fits the places left is read back from its shortest varint, and the bytes after
it are left. -/
theorem readVarintAt_varintOfNat (place n : Nat) (rest : List UInt8)
    (h : n * 128 ^ place < 2 ^ 64) (hp : place ≤ 9) :
    readVarintAt place (varintOfNat n ++ rest) = .ok (n, rest) := by
  induction n using Nat.strongRecOn generalizing place with
  | ind n ih =>
    rw [varintOfNat]
    have hpow : 0 < 128 ^ place := Nat.pow_pos (by omega)
    split
    · rename_i hn
      have hb : (UInt8.ofNat n).toNat = n := by simp; omega
      simp only [List.cons_append, List.nil_append, readVarintAt, hb]
      have h9 : ¬(place = 9 ∧ 2 ≤ n) := by
        rintro ⟨rfl, h2⟩
        have : 2 * 128 ^ 9 ≤ n * 128 ^ 9 := Nat.mul_le_mul_right _ h2
        omega
      simp [h9, hn]
    · rename_i hn
      have hb : (UInt8.ofNat (n % 128 + 128)).toNat = n % 128 + 128 := by
        simp only [UInt8.toNat_ofNat']
        omega
      have h9 : place ≠ 9 := by
        rintro rfl
        have : 128 * 128 ^ 9 ≤ n * 128 ^ 9 := Nat.mul_le_mul_right _ (by omega)
        omega
      have hdiv : n / 128 * 128 ^ (place + 1) < 2 ^ 64 := by
        refine Nat.lt_of_le_of_lt ?_ h
        rw [Nat.pow_succ, Nat.mul_comm (128 ^ place), ← Nat.mul_assoc]
        exact Nat.mul_le_mul_right _ (Nat.div_mul_le_self n 128)
      simp only [List.cons_append, readVarintAt, hb]
      rw [ih (n / 128) (by omega) (place + 1) hdiv (by omega)]
      simp only [h9, false_and, if_false]
      rw [if_neg (by omega)]
      simp only [Except.ok.injEq, Prod.mk.injEq, and_true]
      omega

/-- A word is read back from its shortest varint, and the bytes after it are left. -/
theorem readVarint_encodeVarint (n : UInt64) (rest : List UInt8) :
    readVarint (encodeVarint n ++ rest) = .ok (n, rest) := by
  have h := readVarintAt_varintOfNat 0 n.toNat rest (by simpa using n.toNat_lt) (by omega)
  simp [readVarint, encodeVarint, h]

/-- A varint leaves fewer bytes than there were. -/
theorem readVarintAt_length_lt {place : Nat} {input rest : List UInt8} {n : Nat}
    (h : readVarintAt place input = .ok (n, rest)) : rest.length < input.length := by
  induction input generalizing place n rest with
  | nil => simp [readVarintAt] at h
  | cons b r ih =>
    simp only [readVarintAt] at h
    split at h
    · simp at h
    · split at h
      · simp only [Except.ok.injEq, Prod.mk.injEq] at h
        simp [← h.2]
      · split at h
        · simp at h
        · rename_i m r' hr
          simp only [Except.ok.injEq, Prod.mk.injEq] at h
          have := ih hr
          rw [← h.2]
          simp only [List.length_cons]
          omega

/-- A varint leaves fewer bytes than there were. -/
theorem readVarint_length_lt {input rest : List UInt8} {n : UInt64}
    (h : readVarint input = .ok (n, rest)) : rest.length < input.length := by
  simp only [readVarint] at h
  split at h
  · simp at h
  · rename_i m r hr
    simp only [Except.ok.injEq, Prod.mk.injEq] at h
    exact h.2 ▸ readVarintAt_length_lt hr

end ColumnarRecords.Wire
