import Mathlib.Tactic.SplitIfs
import ColumnarRecords.Proofs.Text.Utf8
import ColumnarRecords.Text.Escape

/-!
# Escapes are read as the bytes that they are written for

A byte is written as a character by itself, as a backslash and a letter, or as a backslash and three
octal digits. `Escape.encodeByte_cases` says what a reader needs to know of this: what follows the
backslash is read as the byte again, whatever comes after it, as no fourth digit is ever taken; and
a character by itself is none that a string cannot hold.
-/

namespace ColumnarRecords.Text.Escape

/-! ## Octal digits -/

/-- An octal digit has its value. -/
theorem digitIn?_digitChar : ∀ d < 8, Numeral.digitIn? 8 (Nat.digitChar d) = some d := by decide

/-- An octal digit is no letter of an escape. -/
theorem letter?_digitChar : ∀ d < 8, letter? (Nat.digitChar d) = none := by decide

/-- An octal digit does not begin an escape of another kind. -/
theorem digitChar_ne : ∀ d < 8,
    Nat.digitChar d ≠ 'x' ∧ Nat.digitChar d ≠ 'u' ∧ Nat.digitChar d ≠ 'U' := by decide

/-- Three octal digits are read as the number that they write. -/
theorem read?_digits {x y z : Nat} (hx : x < 4) (hy : y < 8) (hz : z < 8) (rest : List Char) :
    read? (Nat.digitChar x :: Nat.digitChar y :: Nat.digitChar z :: rest) =
      some ([UInt8.ofNat (x * 64 + y * 8 + z)], rest) := by
  have hx8 : x < 8 := by omega
  have hdigit : ∀ d < 8, isDigitIn 8 (Nat.digitChar d) = true := by decide
  have hdigits : [Nat.digitChar x, Nat.digitChar y, Nat.digitChar z].takeWhile (isDigitIn 8) =
      [Nat.digitChar x, Nat.digitChar y, Nat.digitChar z] := by
    simp [hdigit x hx8, hdigit y hy, hdigit z hz]
  have hnumber : number 8 [Nat.digitChar x, Nat.digitChar y, Nat.digitChar z] =
      x * 64 + y * 8 + z := by
    simp only [number, List.foldl_cons, List.foldl_nil, digitIn?_digitChar x hx8,
      digitIn?_digitChar y hy, digitIn?_digitChar z hz, Option.getD_some]
    omega
  obtain ⟨hnex, hneu, hneU⟩ := digitChar_ne x hx8
  rw [read?]
  · rw [letter?_digitChar x hx8]
    simp only [List.take_succ_cons, List.take_zero, hdigits, hnumber]
    rw [if_neg (by simp; omega)]
    rfl
  · exact fun h => hnex h
  · exact fun h => hneu h
  · exact fun h => hneU h

/-- A byte that is a character by itself is the encoding of the character. -/
theorem encodeChar_ofNat {b : UInt8} (h : b.toNat < 128) :
    Utf8.encodeChar (Char.ofNat b.toNat) = [b] := by
  unfold Utf8.encodeChar
  simp only [Utf8.toNat_ofNat_of_range (.inl (by omega : b.toNat < 0xD800))]
  rw [if_pos h, UInt8.ofNat_toNat]

/-- A byte is written as an escape of which it is what is read, or as the character that it encodes,
which is neither a backslash nor a double quote nor a character that a string cannot hold. -/
theorem encodeByte_cases (b : UInt8) :
    (∃ s, encodeByte b = '\\' :: s ∧ ∀ rest, read? (s ++ rest) = some ([b], rest)) ∨
      ∃ c, encodeByte b = [c] ∧ Utf8.encodeChar c = [b] ∧ c ≠ '\\' ∧ c ≠ '"' ∧ c ≠ '\n' ∧
        c ≠ '\x00' := by
  unfold encodeByte
  split_ifs with htab hline hreturn hquote hsingle hslash hprinted
  · exact .inl ⟨_, rfl, fun rest => htab ▸ rfl⟩
  · exact .inl ⟨_, rfl, fun rest => hline ▸ rfl⟩
  · exact .inl ⟨_, rfl, fun rest => hreturn ▸ rfl⟩
  · exact .inl ⟨_, rfl, fun rest => hquote ▸ rfl⟩
  · exact .inl ⟨_, rfl, fun rest => hsingle ▸ rfl⟩
  · exact .inl ⟨_, rfl, fun rest => hslash ▸ rfl⟩
  · obtain ⟨hlow, hhigh⟩ := hprinted
    have hnumber : (Char.ofNat b.toNat).toNat = b.toNat :=
      Utf8.toNat_ofNat_of_range (.inl (by omega))
    have hne : ∀ c : Char, b ≠ UInt8.ofNat c.toNat → Char.ofNat b.toNat ≠ c := by
      rintro _ hb rfl
      rw [hnumber, UInt8.ofNat_toNat] at hb
      exact hb rfl
    have hcontrol : ∀ c : Char, c.toNat < 32 → Char.ofNat b.toNat ≠ c := by
      rintro _ hc rfl
      omega
    exact .inr ⟨_, rfl, encodeChar_ofNat (by omega), hne '\\' hslash, hne '"' hquote,
      hcontrol '\n' (by decide), hcontrol '\x00' (by decide)⟩
  · have hb := b.toNat_lt
    have hbits : b.toNat / 64 * 64 + b.toNat / 8 % 8 * 8 + b.toNat % 8 = b.toNat := by omega
    refine .inl ⟨_, rfl, fun rest => ?_⟩
    rw [List.cons_append, List.cons_append, List.cons_append, List.nil_append,
      read?_digits (by omega) (by omega) (by omega), hbits, UInt8.ofNat_toNat]

end ColumnarRecords.Text.Escape
