import Mathlib.Data.List.TakeWhile
import ColumnarRecords.Floating.Numeral
import ColumnarRecords.Text.Blank

/-!
# What numerals read as

A bounded numeral is read exactly if it consists of digits and the number that it writes is within
the bound (`readDigits_eq_ok_iff`, and `readNat_eq_ok_iff` for a text without sign). The number is
core's `Nat.ofDigitChars`, so that reading undoes printing.
-/

namespace ColumnarRecords

open Floating (digitsValue isDigit)

namespace Floating

/-- The number of digits is the one that core reads from them. -/
theorem digitsValue_eq (acc : Nat) (digits : List Char) :
    digitsValue acc digits = Nat.ofDigitChars 10 digits acc := by
  simp only [digitsValue, Nat.ofDigitChars_eq_foldl, Nat.mul_comm]

/-- Zeros after a printed number are a factor. -/
theorem digitsValue_toDigits_append_zeros (n k : Nat) :
    digitsValue 0 (Nat.toDigits 10 n ++ List.replicate k '0') = n * 10 ^ k := by
  rw [digitsValue_eq, Nat.ofDigitChars_append, Nat.ofDigitChars_ten_toDigits,
    Nat.ofDigitChars_replicate_zero, Nat.mul_comm]

/-- Reading undoes printing. -/
theorem digitsValue_toDigits (n : Nat) : digitsValue 0 (Nat.toDigits 10 n) = n := by
  simpa using digitsValue_toDigits_append_zeros n 0

/-- Digits never lower the number that they continue. -/
theorem le_digitsValue (acc : Nat) (digits : List Char) : acc ≤ digitsValue acc digits := by
  induction digits generalizing acc with
  | nil => exact le_rfl
  | cons c rest ih => exact (by omega : acc ≤ acc * 10 + (c.toNat - '0'.toNat)).trans (ih _)

/-- The digits are ten consecutive characters. -/
theorem isDigit_iff {c : Char} : isDigit c ↔ 48 ≤ c.toNat ∧ c.toNat ≤ 57 := by
  simp only [isDigit, Bool.and_eq_true, decide_eq_true_eq, Char.le_def, UInt32.le_iff_toNat_le]
  exact Iff.rfl

/-- Printed numbers consist of digits. -/
theorem isDigit_of_mem_toDigits {n : Nat} {c : Char} (h : c ∈ Nat.toDigits 10 n) : isDigit c :=
  Nat.isDigit_of_mem_toDigits (by decide) (by decide) h

end Floating

namespace Text

/-- A digit is no blank. -/
theorem isBlank_of_isDigit {c : Char} (h : isDigit c) : isBlank c = false := by
  have hc := Floating.isDigit_iff.mp h
  simp only [isBlank, Bool.or_eq_false_iff, Bool.and_eq_false_iff, decide_eq_false_iff_not,
    beq_eq_false_iff_ne]
  omega

/-- A text without blanks is trimmed already. -/
theorem trim_eq_self {s : List Char} (h : ∀ c ∈ s, isBlank c = false) : trim s = s := by
  have drop_eq : ∀ s : List Char, (∀ c ∈ s, isBlank c = false) → s.dropWhile isBlank = s := by
    intro s h
    cases s with
    | nil => rfl
    | cons c rest => exact List.dropWhile_cons_of_neg (by simp [h c])
  rw [trim, drop_eq s h, drop_eq s.reverse fun c hc => h c (List.mem_reverse.mp hc),
    List.reverse_reverse]

namespace Numeral

/-- In base ten the digits are `0` to `9` alone. -/
theorem digitIn?_ten (c : Char) :
    digitIn? 10 c = if isDigit c then some (c.toNat - '0'.toNat) else none := by
  by_cases h : isDigit c
  · have hc := Floating.isDigit_iff.mp h
    have hd : '0' ≤ c ∧ c ≤ '9' := by simpa [isDigit] using h
    have hten : c.toNat - '0'.toNat < 10 := by
      change c.toNat - 48 < 10
      omega
    simp only [digitIn?, hd, and_self, if_true, hten, h]
  · have hd : ¬ ('0' ≤ c ∧ c ≤ '9') := by simpa [isDigit] using h
    simp only [digitIn?, hd, if_false, h]
    split_ifs <;> first | omega | rfl

/-- What digits continue a number to, within a bound. -/
theorem readDigits_eq_ok_iff {max : Nat} {excess : Fault} {acc n : Nat} {digits : List Char}
    (hacc : acc ≤ max) :
    readDigits 10 max excess acc digits = .ok n ↔
      (∀ c ∈ digits, isDigit c) ∧ digitsValue acc digits = n ∧ n ≤ max := by
  induction digits generalizing acc with
  | nil =>
    simp only [readDigits, Except.ok.injEq, digitsValue, List.foldl_nil, List.not_mem_nil,
      false_implies, implies_true, true_and]
    omega
  | cons c rest ih =>
    rw [readDigits, digitIn?_ten]
    by_cases hc : isDigit c
    · have hvalue : digitsValue acc (c :: rest) =
          digitsValue (acc * 10 + (c.toNat - '0'.toNat)) rest := rfl
      simp only [hc, if_true, List.forall_mem_cons, true_and, hvalue]
      by_cases hle : acc * 10 + (c.toNat - '0'.toNat) ≤ max
      · rw [if_pos hle, ih hle]
      · -- Reading stops past the bound, and no further digit leads back below it.
        rw [if_neg hle]
        have := Floating.le_digitsValue (acc * 10 + (c.toNat - '0'.toNat)) rest
        simp only [reduceCtorEq, false_iff]
        omega
    · simp [hc]

/-- A text of digits alone reads as the number that it writes, within the bound. -/
theorem readNat_eq_ok_iff {max n : Nat} {digits : List Char} (hne : digits ≠ [])
    (h : ∀ c ∈ digits, isDigit c) :
    readNat 10 max digits = .ok n ↔ digitsValue 0 digits = n ∧ n ≤ max := by
  have hread : readNat 10 max digits = readDigits 10 max .tooLarge 0 digits := by
    obtain _ | ⟨c, rest⟩ := digits
    · exact absurd rfl hne
    · have hc : c ≠ '+' := by
        rintro rfl
        exact absurd (h '+' List.mem_cons_self) (by decide)
      rw [readNat] <;> simp [hc]
  rw [hread, readDigits_eq_ok_iff (Nat.zero_le max)]
  exact and_iff_right h

/-- A numeral that is read without a sign is a text of digits that write its number. -/
theorem digits_of_readInt {max : Nat} {n : Int} {s : List Char} (hplus : '+' ∉ s)
    (hminus : '-' ∉ s) (h : readInt 10 max s = .ok n) :
    s ≠ [] ∧ (∀ c ∈ s, isDigit c) ∧ n = digitsValue 0 s := by
  unfold readInt at h
  split at h
  case h_6 hne _ _ _ _ =>
    cases hr : readDigits 10 max .tooLarge 0 s with
    | error e => simp [hr, Except.map] at h
    | ok m =>
      obtain ⟨hdigits, rfl, -⟩ := (readDigits_eq_ok_iff (Nat.zero_le max)).mp hr
      rw [hr] at h
      exact ⟨hne, hdigits, (Except.ok.inj h).symm⟩
  all_goals simp_all

end Numeral

end Text

end ColumnarRecords
