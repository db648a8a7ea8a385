import ColumnarRecords.Text.Utf8

/-!
# Text and its encoding

The decoder is strict: it takes a sequence only in its shortest form and only for a character. So
that a text is read back from its encoding (`decode_encode`) needs that the encoding of a character
is of this form, which `decodeChar_encodeChar` shows for each length of sequences. That a character
is no surrogate and not above `0x10FFFF` is what the two lead bytes with narrower second bytes rest
on. As no sequence but the shortest is taken, bytes that are read as text are its encoding too
(`flatMap_encodeChar_of_decodeFrom`).
-/

namespace ColumnarRecords.Text.Utf8

/-- The number that a byte is made of is its value. -/
theorem toNat_ofNat_of_lt {n : Nat} (h : n < 256) : (UInt8.ofNat n).toNat = n := by
  rw [UInt8.toNat_ofNat']
  exact Nat.mod_eq_of_lt h

/-- A character's number is in one of the two ranges around the surrogates. -/
theorem toNat_range (c : Char) : c.toNat < 0xD800 ∨ 0xDFFF < c.toNat ∧ c.toNat < 0x110000 :=
  c.valid

/-- Six bits after a leading one are those of a continuation byte. -/
theorem isContinuation_ofNat {n : Nat} (h : n < 64) :
    isContinuation (UInt8.ofNat (0x80 + n)) = true := by
  unfold isContinuation
  rw [toNat_ofNat_of_lt (by omega)]
  simp only [Bool.and_eq_true, decide_eq_true_eq]
  omega

/-- A continuation byte carries its six bits. -/
theorem payload_ofNat {n : Nat} (h : n < 64) : payload (UInt8.ofNat (0x80 + n)) = n := by
  unfold payload
  rw [toNat_ofNat_of_lt (by omega)]
  omega

/-- A sequence of two bytes is read as its character. -/
theorem decodeChar_two {n : Nat} (hlow : 0x80 ≤ n) (hhigh : n < 0x800) (rest : List UInt8) :
    decodeChar (UInt8.ofNat (0xC0 + n / 64)) (UInt8.ofNat (0x80 + n % 64) :: rest) =
      .ok (Char.ofNat n, rest) := by
  have hlead : (UInt8.ofNat (0xC0 + n / 64)).toNat = 0xC0 + n / 64 := toNat_ofNat_of_lt (by omega)
  -- The bits of the lead byte and of the continuation byte, put together again.
  have hbits : (0xC0 + n / 64) % 32 * 64 + n % 64 = n := by omega
  unfold decodeChar
  simp only [hlead]
  rw [if_neg (by omega), if_pos (by omega), if_pos (isContinuation_ofNat (by omega)),
    payload_ofNat (by omega), hbits]

/-- The second byte of three is none that a shorter form or a surrogate would have. -/
theorem isSecondOfThree_ofNat {n : Nat} (hlow : 0x800 ≤ n) (hhigh : n < 0x10000)
    (hrange : n < 0xD800 ∨ 0xDFFF < n) :
    isSecondOfThree (UInt8.ofNat (0xE0 + n / 4096)) (UInt8.ofNat (0x80 + n / 64 % 64)) = true := by
  unfold isSecondOfThree
  simp only [toNat_ofNat_of_lt (show 0xE0 + n / 4096 < 256 by omega),
    toNat_ofNat_of_lt (show 0x80 + n / 64 % 64 < 256 by omega)]
  -- Only `0xE0` and `0xED` narrow the second byte: to no shorter form and to no surrogate.
  split
  · simp only [Bool.and_eq_true, decide_eq_true_eq]
    omega
  · split <;> simp only [Bool.and_eq_true, decide_eq_true_eq] <;> omega

/-- A sequence of three bytes is read as its character. -/
theorem decodeChar_three {n : Nat} (hlow : 0x800 ≤ n) (hhigh : n < 0x10000)
    (hrange : n < 0xD800 ∨ 0xDFFF < n) (rest : List UInt8) :
    decodeChar (UInt8.ofNat (0xE0 + n / 4096))
        (UInt8.ofNat (0x80 + n / 64 % 64) :: UInt8.ofNat (0x80 + n % 64) :: rest) =
      .ok (Char.ofNat n, rest) := by
  have hlead : (UInt8.ofNat (0xE0 + n / 4096)).toNat = 0xE0 + n / 4096 :=
    toNat_ofNat_of_lt (by omega)
  have hsecond := isSecondOfThree_ofNat hlow hhigh hrange
  have hbits : ((0xE0 + n / 4096) % 16 * 64 + n / 64 % 64) * 64 + n % 64 = n := by omega
  unfold decodeChar
  simp only [hlead, hsecond]
  rw [if_neg (by omega), if_neg (by omega), if_pos (by omega), if_neg (by decide),
    if_pos (isContinuation_ofNat (by omega)), payload_ofNat (by omega), payload_ofNat (by omega),
    hbits]

/-- The second byte of four is none that a shorter form or a number too high would have. -/
theorem isSecondOfFour_ofNat {n : Nat} (hlow : 0x10000 ≤ n) (hhigh : n < 0x110000) :
    isSecondOfFour (UInt8.ofNat (0xF0 + n / 262144)) (UInt8.ofNat (0x80 + n / 4096 % 64)) =
      true := by
  unfold isSecondOfFour
  simp only [toNat_ofNat_of_lt (show 0xF0 + n / 262144 < 256 by omega),
    toNat_ofNat_of_lt (show 0x80 + n / 4096 % 64 < 256 by omega)]
  -- Only `0xF0` and `0xF4` narrow the second byte: to no shorter form and to no number too high.
  split
  · simp only [Bool.and_eq_true, decide_eq_true_eq]
    omega
  · split <;> simp only [Bool.and_eq_true, decide_eq_true_eq] <;> omega

/-- A sequence of four bytes is read as its character. -/
theorem decodeChar_four {n : Nat} (hlow : 0x10000 ≤ n) (hhigh : n < 0x110000)
    (rest : List UInt8) :
    decodeChar (UInt8.ofNat (0xF0 + n / 262144))
        (UInt8.ofNat (0x80 + n / 4096 % 64) :: UInt8.ofNat (0x80 + n / 64 % 64) ::
          UInt8.ofNat (0x80 + n % 64) :: rest) =
      .ok (Char.ofNat n, rest) := by
  have hlead : (UInt8.ofNat (0xF0 + n / 262144)).toNat = 0xF0 + n / 262144 :=
    toNat_ofNat_of_lt (by omega)
  have hsecond := isSecondOfFour_ofNat hlow hhigh
  have hthird := isContinuation_ofNat (n := n / 64 % 64) (by omega)
  have hbits : (((0xF0 + n / 262144) % 8 * 64 + n / 4096 % 64) * 64 + n / 64 % 64) * 64 + n % 64 =
      n := by omega
  unfold decodeChar
  simp only [hlead, hsecond, hthird]
  rw [if_neg (by omega), if_neg (by omega), if_neg (by omega), if_pos (by omega),
    if_neg (by decide), if_neg (by decide), if_pos (isContinuation_ofNat (by omega)),
    payload_ofNat (by omega), payload_ofNat (by omega), payload_ofNat (by omega), hbits]

/-- A character is read back from its encoding, whatever follows. -/
theorem decodeChar_encodeChar (c : Char) :
    ∃ lead others, encodeChar c = lead :: others ∧
      ∀ rest, decodeChar lead (others ++ rest) = .ok (c, rest) := by
  have hrange := toNat_range c
  have hc : Char.ofNat c.toNat = c := Char.ofNat_toNat c
  unfold encodeChar
  simp only
  -- One case for each length of sequences that are written.
  by_cases h1 : c.toNat < 0x80
  · have hbyte : (UInt8.ofNat c.toNat).toNat = c.toNat := toNat_ofNat_of_lt (by omega)
    refine ⟨_, _, if_pos h1, fun rest => ?_⟩
    unfold decodeChar
    simp only [hbyte]
    rw [if_pos h1, hc]
    rfl
  · by_cases h2 : c.toNat < 0x800
    · refine ⟨_, _, (if_neg h1).trans (if_pos h2), fun rest => ?_⟩
      rw [List.singleton_append, decodeChar_two (by omega) h2, hc]
    · by_cases h3 : c.toNat < 0x10000
      · refine ⟨_, _, (if_neg h1).trans ((if_neg h2).trans (if_pos h3)), fun rest => ?_⟩
        exact (decodeChar_three (by omega) h3 (by omega) rest).trans (by rw [hc])
      · refine ⟨_, _, (if_neg h1).trans ((if_neg h2).trans (if_neg h3)), fun rest => ?_⟩
        exact (decodeChar_four (by omega) (by omega) rest).trans (by rw [hc])

/-- Characters are read back from their encodings, wherever they stand. -/
theorem decodeFrom_flatMap_encodeChar (start : Nat) (chars : List Char) :
    decodeFrom start (chars.flatMap encodeChar) = .ok chars := by
  induction chars generalizing start with
  | nil => rw [List.flatMap_nil, decodeFrom]
  | cons c rest ih =>
    obtain ⟨lead, others, hencode, hdecode⟩ := decodeChar_encodeChar c
    rw [List.flatMap_cons, hencode, List.cons_append, decodeFrom]
    split
    · rename_i fault hfault
      rw [hdecode] at hfault
      cases hfault
    · rename_i c' rest' hread
      rw [hdecode] at hread
      obtain ⟨rfl, rfl⟩ := Prod.mk.inj (Except.ok.inj hread)
      rw [ih]

/-- A text is read back from its encoding. -/
theorem decode_encode (s : String) : decode (encode s) = .ok s := by
  unfold decode encode
  rw [decodeFrom_flatMap_encodeChar]
  exact congrArg Except.ok String.ofList_toList

/-! ## The text that is read is the one that was written -/

/-- The character of a number that is one has this number. -/
theorem toNat_ofNat_of_range {n : Nat} (h : n < 0xD800 ∨ 0xDFFF < n ∧ n < 0x110000) :
    (Char.ofNat n).toNat = n := by
  have hvalid : n.isValidChar := h
  unfold Char.ofNat
  rw [dif_pos hvalid]
  rfl

/-- A continuation byte carries six bits. -/
theorem payload_lt (b : UInt8) : payload b < 64 := Nat.mod_lt _ (by decide)

/-- A continuation byte is its six bits after a leading one. -/
theorem ofNat_payload {b : UInt8} (h : isContinuation b = true) :
    UInt8.ofNat (0x80 + payload b) = b := by
  unfold isContinuation at h
  simp only [Bool.and_eq_true, decide_eq_true_eq] at h
  have hbits : 0x80 + payload b = b.toNat := by
    unfold payload
    omega
  rw [hbits, UInt8.ofNat_toNat]

/-- The second byte of three is a continuation byte. After `0xE0` it is so high that there is no
shorter form, and after `0xED` so low that there is no surrogate. -/
theorem isSecondOfThree_iff {a b : UInt8} : isSecondOfThree a b = true ↔
    isContinuation b = true ∧ (a.toNat = 0xE0 → 32 ≤ payload b) ∧
      (a.toNat = 0xED → payload b < 32) := by
  unfold isSecondOfThree isContinuation payload
  simp only
  split
  · simp only [Bool.and_eq_true, decide_eq_true_eq]
    omega
  · split <;> simp only [Bool.and_eq_true, decide_eq_true_eq] <;> omega

/-- The second byte of four is a continuation byte. After `0xF0` it is so high that there is no
shorter form, and after `0xF4` so low that the number is not too high. -/
theorem isSecondOfFour_iff {a b : UInt8} : isSecondOfFour a b = true ↔
    isContinuation b = true ∧ (a.toNat = 0xF0 → 16 ≤ payload b) ∧
      (a.toNat = 0xF4 → payload b < 16) := by
  unfold isSecondOfFour isContinuation payload
  simp only
  split
  · simp only [Bool.and_eq_true, decide_eq_true_eq]
    omega
  · split <;> simp only [Bool.and_eq_true, decide_eq_true_eq] <;> omega

/-- The encoding of the character that two bytes are read as. -/
theorem encodeChar_of_two {a b : UInt8} (ha : 0xC2 ≤ a.toNat ∧ a.toNat < 0xE0)
    (hb : isContinuation b = true) :
    encodeChar (Char.ofNat (a.toNat % 32 * 64 + payload b)) = [a, b] := by
  have hp := payload_lt b
  generalize hn : a.toNat % 32 * 64 + payload b = n
  unfold encodeChar
  simp only
  rw [toNat_ofNat_of_range (by omega), if_neg (by omega), if_pos (by omega),
    show 0xC0 + n / 64 = a.toNat by omega, show n % 64 = payload b by omega,
    UInt8.ofNat_toNat, ofNat_payload hb]

/-- The encoding of the character that three bytes are read as. -/
theorem encodeChar_of_three {a b c : UInt8} (ha : 0xE0 ≤ a.toNat ∧ a.toNat < 0xF0)
    (hb : isSecondOfThree a b = true) (hc : isContinuation c = true) :
    encodeChar (Char.ofNat ((a.toNat % 16 * 64 + payload b) * 64 + payload c)) = [a, b, c] := by
  obtain ⟨hb, hshortest, hsurrogate⟩ := isSecondOfThree_iff.1 hb
  have hp := payload_lt b
  have hq := payload_lt c
  generalize hn : (a.toNat % 16 * 64 + payload b) * 64 + payload c = n
  unfold encodeChar
  simp only
  rw [toNat_ofNat_of_range (by omega), if_neg (by omega), if_neg (by omega), if_pos (by omega),
    show 0xE0 + n / 4096 = a.toNat by omega, show n / 64 % 64 = payload b by omega,
    show n % 64 = payload c by omega, UInt8.ofNat_toNat, ofNat_payload hb, ofNat_payload hc]

/-- The encoding of the character that four bytes are read as. -/
theorem encodeChar_of_four {a b c d : UInt8} (ha : 0xF0 ≤ a.toNat ∧ a.toNat < 0xF5)
    (hb : isSecondOfFour a b = true) (hc : isContinuation c = true)
    (hd : isContinuation d = true) :
    encodeChar (Char.ofNat (((a.toNat % 8 * 64 + payload b) * 64 + payload c) * 64 + payload d)) =
      [a, b, c, d] := by
  obtain ⟨hb, hshortest, hhighest⟩ := isSecondOfFour_iff.1 hb
  have hp := payload_lt b
  have hq := payload_lt c
  have hr := payload_lt d
  generalize hn : ((a.toNat % 8 * 64 + payload b) * 64 + payload c) * 64 + payload d = n
  unfold encodeChar
  simp only
  rw [toNat_ofNat_of_range (by omega), if_neg (by omega), if_neg (by omega), if_neg (by omega),
    show 0xF0 + n / 262144 = a.toNat by omega, show n / 4096 % 64 = payload b by omega,
    show n / 64 % 64 = payload c by omega, show n % 64 = payload d by omega,
    UInt8.ofNat_toNat, ofNat_payload hb, ofNat_payload hc, ofNat_payload hd]

/-- The character that is read is the one of which the bytes are the encoding. -/
theorem encodeChar_of_decodeChar {a : UInt8} {rest r : List UInt8} {c : Char}
    (h : decodeChar a rest = .ok (c, r)) : encodeChar c ++ r = a :: rest := by
  unfold decodeChar at h
  simp only at h
  -- One case for each length of sequences that are read.
  split at h
  · rename_i hone
    obtain ⟨rfl, rfl⟩ := Prod.mk.inj (Except.ok.inj h)
    unfold encodeChar
    simp only
    rw [toNat_ofNat_of_range (by omega), if_pos hone, UInt8.ofNat_toNat]
    rfl
  · split at h
    · rename_i htwo
      split at h
      · cases h
      · split at h
        · rename_i hb
          obtain ⟨rfl, rfl⟩ := Prod.mk.inj (Except.ok.inj h)
          rw [encodeChar_of_two htwo hb]
          rfl
        · cases h
    · split at h
      · rename_i hthree
        split at h
        · cases h
        · split at h
          · cases h
          · rename_i hb
            split at h
            · cases h
            · split at h
              · rename_i hc
                obtain ⟨rfl, rfl⟩ := Prod.mk.inj (Except.ok.inj h)
                rw [encodeChar_of_three hthree (by simpa using hb) hc]
                rfl
              · cases h
      · split at h
        · rename_i hfour
          split at h
          · cases h
          · split at h
            · cases h
            · rename_i hb
              split at h
              · cases h
              · split at h
                · cases h
                · rename_i hc
                  split at h
                  · cases h
                  · split at h
                    · rename_i hd
                      obtain ⟨rfl, rfl⟩ := Prod.mk.inj (Except.ok.inj h)
                      rw [encodeChar_of_four hfour (by simpa using hb) (by simpa using hc) hd]
                      rfl
                    · cases h
        · cases h

/-- The characters that are read are those of which the bytes are the encodings. -/
theorem flatMap_encodeChar_of_decodeFrom {start : Nat} {bytes : List UInt8} {chars : List Char}
    (h : decodeFrom start bytes = .ok chars) : chars.flatMap encodeChar = bytes := by
  fun_induction decodeFrom start bytes generalizing chars with
  | case1 =>
    obtain rfl := Except.ok.inj h
    rfl
  | case2 => cases h
  | case3 => cases h
  | case4 start a rest c r hread cs hrest ih =>
    obtain rfl := Except.ok.inj h
    rw [List.flatMap_cons, ih hrest, encodeChar_of_decodeChar hread]

/-- Bytes are read as a text exactly if they are its encoding. -/
theorem decode_eq_ok_iff {bytes : List UInt8} {s : String} :
    decode bytes = .ok s ↔ encode s = bytes := by
  constructor
  · intro h
    unfold decode at h
    cases hread : decodeFrom 0 bytes with
    | error f =>
      rw [hread] at h
      cases h
    | ok chars =>
      rw [hread] at h
      obtain rfl := Except.ok.inj h
      rw [encode, String.toList_ofList, flatMap_encodeChar_of_decodeFrom hread]
  · rintro rfl
    exact decode_encode s

/-- A character has one to four bytes. -/
theorem length_encodeChar (c : Char) :
    1 ≤ (encodeChar c).length ∧ (encodeChar c).length ≤ 4 := by
  unfold encodeChar
  simp only
  split
  · simp
  · split
    · simp
    · split <;> simp

/-- A text whose bytes begin with one of a character by itself begins with this character. -/
theorem eq_cons_of_flatMap_of_lt {s : List Char} {b : UInt8} {bytes : List UInt8}
    (hb : b.toNat < 128) (h : s.flatMap encodeChar = b :: bytes) :
    ∃ s', s = Char.ofNat b.toNat :: s' ∧ s'.flatMap encodeChar = bytes := by
  cases s with
  | nil => cases h
  | cons c s' =>
    obtain ⟨lead, others, hencode, hdecode⟩ := decodeChar_encodeChar c
    rw [List.flatMap_cons, hencode, List.cons_append, List.cons.injEq] at h
    obtain ⟨rfl, hothers⟩ := h
    -- A byte below 128 is decoded alone.
    have halone : decodeChar lead (others ++ []) = .ok (Char.ofNat lead.toNat, others ++ []) := by
      unfold decodeChar
      simp only
      exact if_pos hb
    obtain ⟨hc, hnil⟩ := Prod.mk.inj (Except.ok.inj (halone.symm.trans (hdecode [])))
    rw [List.append_nil] at hnil
    rw [hnil, List.nil_append] at hothers
    exact ⟨s', by rw [hc], hothers⟩

/-- A text whose bytes begin with one that belongs to several begins with no character of a single
byte. -/
theorem exists_cons_of_flatMap_of_le {s : List Char} {b : UInt8} {bytes : List UInt8}
    (hb : 128 ≤ b.toNat) (h : s.flatMap encodeChar = b :: bytes) :
    ∃ c s', s = c :: s' ∧ 128 ≤ c.toNat := by
  cases s with
  | nil => cases h
  | cons c s' =>
    refine ⟨c, s', rfl, ?_⟩
    refine Nat.le_of_not_lt fun hlt => ?_
    have hencode : encodeChar c = [UInt8.ofNat c.toNat] := by
      unfold encodeChar
      simp only
      exact if_pos hlt
    rw [List.flatMap_cons, hencode, List.singleton_append, List.cons.injEq] at h
    have hbyte := toNat_ofNat_of_lt (show c.toNat < 256 by omega)
    rw [h.1] at hbyte
    omega

/-- No byte of a character is 255. -/
theorem ne_of_mem_encodeChar {c : Char} {b : UInt8} (h : b ∈ encodeChar c) : b ≠ 255 := by
  have hrange := toNat_range c
  rintro rfl
  have hbyte : ∀ n < 255, (255 : UInt8) ≠ UInt8.ofNat n := by
    intro n hn heq
    have hnat := toNat_ofNat_of_lt (show n < 256 by omega)
    rw [← heq] at hnat
    have h255 : (255 : UInt8).toNat = 255 := rfl
    omega
  unfold encodeChar at h
  simp only at h
  split at h
  · rw [List.mem_singleton] at h
    exact hbyte _ (by omega) h
  · split at h
    · simp only [List.mem_cons, List.not_mem_nil, or_false] at h
      rcases h with h | h <;> exact hbyte _ (by omega) h
    · split at h
      · simp only [List.mem_cons, List.not_mem_nil, or_false] at h
        rcases h with h | h | h <;> exact hbyte _ (by omega) h
      · simp only [List.mem_cons, List.not_mem_nil, or_false] at h
        rcases h with h | h | h | h <;> exact hbyte _ (by omega) h

end ColumnarRecords.Text.Utf8
