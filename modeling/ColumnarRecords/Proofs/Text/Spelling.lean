import Mathlib.Data.List.DropRight
import ColumnarRecords.Proofs.Text.Numeral

/-!
# Which texts spell a number

A bounded numeral is read exactly if it is one or more digits, after an optional plus sign, and
their number is within the bound (`Numeral.Spells`). Of any other text the first character that
cannot be used is reported (`Numeral.Misspells`), also where digits that exceed the bound are
followed by something else. What is left of a text without the blanks around it is said by `Trims`.
-/

namespace ColumnarRecords.Text

open Floating (digitsValue isDigit)

/-! ## Blanks around a text -/

/-- A text is what is left of another without the blanks at its two ends. -/
structure Trims (s t : List Char) : Prop where
  /-- What stands before and after it are blanks. -/
  around : ∃ left right, s = left ++ t ++ right ∧ (∀ c ∈ left, isBlank c) ∧ ∀ c ∈ right, isBlank c
  /-- It does not begin with a blank. -/
  head : ∀ c ∈ t.head?, isBlank c = false
  /-- It does not end with a blank. -/
  last : ∀ c ∈ t.getLast?, isBlank c = false

/-- All of a text goes that comes before its first character of another kind. -/
theorem dropWhile_append_eq {p : Char → Bool} {s t : List Char} (hs : ∀ c ∈ s, p c)
    (ht : ∀ c ∈ t.head?, p c = false) : (s ++ t).dropWhile p = t := by
  rw [List.dropWhile_append_of_pos hs]
  cases t with
  | nil => rfl
  | cons c rest => exact List.dropWhile_cons_of_neg (by simp [ht c rfl])

/-- Trimming leaves what is between the blanks. -/
theorem trims_trim (s : List Char) : Trims s (trim s) := by
  have hends : s.dropWhile isBlank = trim s ++ (s.dropWhile isBlank).rtakeWhile isBlank :=
    List.rdropWhile_append_rtakeWhile.symm
  refine ⟨⟨s.takeWhile isBlank, (s.dropWhile isBlank).rtakeWhile isBlank, ?_,
    fun c hc => List.mem_takeWhile_imp hc, fun c hc => List.mem_rtakeWhile_imp hc⟩, ?_, ?_⟩
  · rw [List.append_assoc, ← hends, List.takeWhile_append_dropWhile]
  · intro c hc
    have hfirst := List.head?_dropWhile_not isBlank s
    rw [hends, List.head?_append, Option.mem_def.1 hc] at hfirst
    exact hfirst
  · intro c hc
    obtain ⟨hne, rfl⟩ := List.mem_getLast?_eq_getLast hc
    rw [← Bool.not_eq_true]
    exact List.rdropWhile_last_not isBlank (s.dropWhile isBlank) hne

/-- Trimming leaves exactly what is between the blanks. -/
theorem trim_eq_iff {s t : List Char} : trim s = t ↔ Trims s t := by
  constructor
  · rintro rfl
    exact trims_trim s
  · rintro ⟨⟨left, right, rfl, hleft, hright⟩, hhead, hlast⟩
    obtain rfl | hne := eq_or_ne t []
    · refine trim_eq_nil_of_blank (List.all_eq_true.2 fun c hc => ?_)
      obtain hc | hc := List.mem_append.1 hc
      · exact hleft c (by simpa using hc)
      · exact hright c hc
    · have hfirst : ∀ c ∈ (t ++ right).head?, isBlank c = false := by
        rw [List.head?_append_of_ne_nil _ hne]
        exact hhead
      -- From the other end, the blanks on the right come before the text.
      have hback : ∀ c ∈ t.reverse.head?, isBlank c = false := by
        rw [List.head?_reverse]
        exact hlast
      rw [trim, List.append_assoc, dropWhile_append_eq hleft hfirst, List.reverse_append,
        dropWhile_append_eq (fun c hc => hright c (List.mem_reverse.1 hc)) hback,
        List.reverse_reverse]

/-- Nothing is left of a text exactly if it has blanks alone. -/
theorem trim_eq_nil_iff {s : List Char} : trim s = [] ↔ ∀ c ∈ s, isBlank c := by
  constructor
  · intro h
    obtain ⟨left, right, rfl, hleft, hright⟩ := (trim_eq_iff.1 h).around
    simpa [or_imp, forall_and] using And.intro hleft hright
  · intro h
    exact trim_eq_nil_of_blank (List.all_eq_true.2 h)

namespace Numeral

/-! ## Numbers without sign -/

/-- The text after an optional plus sign. -/
def unsigned : List Char → List Char
  | '+' :: digits => digits
  | s => s

/-- A text spells a number: one or more digits, after an optional plus sign. -/
structure Spells (s : List Char) (n : Nat) : Prop where
  /-- There is a digit. -/
  ne_nil : unsigned s ≠ []
  /-- There is nothing but digits after the sign. -/
  digits : ∀ c ∈ unsigned s, isDigit c
  /-- The digits are those of the number. -/
  value : digitsValue 0 (unsigned s) = n

/-- A text spells no number up to a bound, and this is the fault that comes first. -/
inductive Misspells (max : Nat) : List Char → Fault → Prop
  /-- There is no character. -/
  | empty : Misspells max [] .empty
  /-- The sign stands alone. -/
  | sign : Misspells max ['+'] .invalidDigit
  /-- After digits within the bound comes another character. -/
  | character {s digits rest : List Char} {c : Char} (text : unsigned s = digits ++ c :: rest)
      (before : ∀ d ∈ digits, isDigit d) (bound : digitsValue 0 digits ≤ max)
      (other : isDigit c = false) : Misspells max s .invalidDigit
  /-- After digits within the bound comes one that exceeds it. -/
  | excess {s digits rest : List Char} {c : Char} (text : unsigned s = digits ++ c :: rest)
      (before : ∀ d ∈ digits, isDigit d) (bound : digitsValue 0 digits ≤ max) (digit : isDigit c)
      (beyond : max < digitsValue 0 (digits ++ [c])) : Misspells max s .tooLarge

/-- Digits within the bound are taken, and the number that they write is continued. -/
theorem readDigits_append {max : Nat} {excess : Fault} {acc : Nat} {digits : List Char}
    (rest : List Char) (hdigits : ∀ d ∈ digits, isDigit d) (hle : digitsValue acc digits ≤ max) :
    readDigits 10 max excess acc (digits ++ rest) =
      readDigits 10 max excess (digitsValue acc digits) rest := by
  induction digits generalizing acc with
  | nil => rfl
  | cons d digits ih =>
    obtain ⟨hd, hdigits⟩ := List.forall_mem_cons.1 hdigits
    have hvalue : digitsValue acc (d :: digits) =
        digitsValue (acc * 10 + (d.toNat - '0'.toNat)) digits := rfl
    rw [hvalue] at hle ⊢
    have hone := (Floating.le_digitsValue _ digits).trans hle
    rw [List.cons_append, readDigits, digitIn?_ten, if_pos hd]
    simp only [hone, if_true]
    exact ih hdigits hle

/-- A digit after others continues the number that they write. -/
theorem digitsValue_concat (digits : List Char) (c : Char) :
    digitsValue 0 (digits ++ [c]) = digitsValue 0 digits * 10 + (c.toNat - '0'.toNat) := by
  rw [digitsValue, List.foldl_append]
  rfl

/-- A text without sign is read by its digits. -/
theorem readNat_eq {max : Nat} {s : List Char} (hne : unsigned s ≠ []) :
    readNat 10 max s = readDigits 10 max .tooLarge 0 (unsigned s) := by
  unfold unsigned at hne ⊢
  split at hne
  · rw [readNat]
    exact hne
  · rename_i hsign
    rw [readNat]
    · exact hne
    · rintro rfl
      exact hsign [] rfl
    · exact hsign

/-- A text that spells a number within the bound is read as it. -/
theorem Spells.readNat {max n : Nat} {s : List Char} (h : Spells s n) (hle : n ≤ max) :
    readNat 10 max s = .ok n := by
  rw [readNat_eq h.ne_nil, readDigits_eq_ok_iff (Nat.zero_le max)]
  exact ⟨h.digits, h.value, hle⟩

/-- A text without minus sign is read by its digits where numbers may be negative, too. -/
theorem readInt_eq {max : Nat} {s : List Char} (hne : unsigned s ≠ [])
    (hminus : ∀ rest, s ≠ '-' :: rest) :
    readInt 10 max s = (readDigits 10 max .tooLarge 0 (unsigned s)).map Int.ofNat := by
  unfold unsigned at hne ⊢
  split at hne
  · rw [readInt]
    exact hne
  · rename_i hsign
    rw [readInt]
    · exact hne
    · rintro rfl
      exact hsign [] rfl
    · exact hminus []
    · exact hsign
    · exact hminus

/-- A text that spells a number within the bound is read as it where numbers may be negative. -/
theorem Spells.readInt {max n : Nat} {s : List Char} (h : Spells s n) (hle : n ≤ max) :
    readInt 10 max s = .ok n := by
  have hdigits : readDigits 10 max .tooLarge 0 (unsigned s) = .ok n :=
    (readDigits_eq_ok_iff (Nat.zero_le max)).2 ⟨h.digits, h.value, hle⟩
  have hminus : ∀ rest, s ≠ '-' :: rest := by
    rintro rest rfl
    exact absurd (h.digits '-' List.mem_cons_self) (by decide)
  rw [readInt_eq h.ne_nil hminus, hdigits]
  rfl

/-- The first fault of a text is reported. -/
theorem Misspells.readNat {max : Nat} {s : List Char} {fault : Fault} (h : Misspells max s fault) :
    readNat 10 max s = .error fault := by
  cases h with
  | empty => rfl
  | sign => rfl
  | character text before bound other =>
    rw [readNat_eq (by simp [text]), text, readDigits_append _ before bound, readDigits,
      digitIn?_ten, other]
    rfl
  | excess text before bound digit beyond =>
    rw [digitsValue_concat] at beyond
    rw [readNat_eq (by simp [text]), text, readDigits_append _ before bound, readDigits,
      digitIn?_ten, if_pos digit]
    exact if_neg (Nat.not_le.2 beyond)

/-- Where nothing but digits stands after the sign and they are within the bound, a number is
spelled; of all other texts there is a first fault. -/
theorem spells_or_misspells (max : Nat) (s : List Char) :
    (∃ n ≤ max, Spells s n) ∨ ∃ fault, Misspells max s fault := by
  by_cases hne : unsigned s = []
  · right
    unfold unsigned at hne
    split at hne
    · subst hne
      exact ⟨_, .sign⟩
    · subst hne
      exact ⟨_, .empty⟩
  · -- Each beginning of the text either is within the bound or has a first fault already.
    have hstops : ∀ t rest, unsigned s = t ++ rest →
        (∀ d ∈ t, isDigit d) ∧ digitsValue 0 t ≤ max ∨ ∃ fault, Misspells max s fault := by
      intro t
      induction t using List.reverseRecOn with
      | nil => exact fun _ _ => .inl ⟨by simp, Nat.zero_le max⟩
      | append_singleton t c ih =>
        intro rest htext
        rw [List.append_assoc, List.singleton_append] at htext
        obtain ⟨hdigits, hle⟩ | hfault := ih _ htext
        · by_cases hc : isDigit c
          · by_cases hbound : digitsValue 0 (t ++ [c]) ≤ max
            · refine .inl ⟨?_, hbound⟩
              simpa [or_imp, forall_and] using And.intro hdigits hc
            · exact .inr ⟨_, .excess htext hdigits hle hc (Nat.lt_of_not_le hbound)⟩
          · exact .inr ⟨_, .character htext hdigits hle (by simpa using hc)⟩
        · exact .inr hfault
    obtain ⟨hdigits, hle⟩ | hfault := hstops (unsigned s) [] (List.append_nil _).symm
    · exact .inl ⟨_, hle, hne, hdigits, rfl⟩
    · exact .inr hfault

/-- A printed number spells the number. -/
theorem spells_toDigits (n : Nat) : Spells (Nat.toDigits 10 n) n := by
  have hdigits : ∀ c ∈ Nat.toDigits 10 n, isDigit c := fun c hc =>
    Floating.isDigit_of_mem_toDigits hc
  have hsign : unsigned (Nat.toDigits 10 n) = Nat.toDigits 10 n := by
    unfold unsigned
    split
    · rename_i hplus
      exact absurd (hdigits '+' (by simp [hplus])) (by decide)
    · rfl
  refine ⟨?_, ?_, ?_⟩ <;> rw [hsign]
  · exact Nat.toDigits_ne_nil
  · exact hdigits
  · exact Floating.digitsValue_toDigits n

/-- A number within a bound is read exactly from the texts that spell it. -/
theorem readNat_eq_ok_iff_spells {max n : Nat} {s : List Char} :
    readNat 10 max s = .ok n ↔ n ≤ max ∧ Spells s n := by
  constructor
  · intro h
    obtain ⟨m, hle, hm⟩ | ⟨fault, hfault⟩ := spells_or_misspells max s
    · obtain rfl := Except.ok.inj ((hm.readNat hle).symm.trans h)
      exact ⟨hle, hm⟩
    · cases hfault.readNat.symm.trans h
  · exact fun ⟨hle, h⟩ => h.readNat hle

/-- A fault is reported exactly of the texts that have it first. -/
theorem readNat_eq_error_iff {max : Nat} {s : List Char} {fault : Fault} :
    readNat 10 max s = .error fault ↔ Misspells max s fault := by
  constructor
  · intro h
    obtain ⟨m, hle, hm⟩ | ⟨fault', hfault⟩ := spells_or_misspells max s
    · cases (hm.readNat hle).symm.trans h
    · obtain rfl := Except.error.inj (hfault.readNat.symm.trans h)
      exact hfault
  · exact Misspells.readNat

/-! ## Printed numbers with a sign -/

/-- A printed number has no zero before it. -/
theorem head?_toDigits_ne_zero {n : Nat} (h : 0 < n) : (Nat.toDigits 10 n).head? ≠ some '0' := by
  induction n using Nat.strongRecOn with
  | ind n ih =>
    rw [Nat.toDigits_eq_if (by decide)]
    split_ifs with hlt
    · simp only [List.head?_cons, ne_eq, Option.some.injEq, Nat.digitChar_eq_zero]
      omega
    · rw [List.head?_append_of_ne_nil _ Nat.toDigits_ne_nil]
      exact ih (n / 10) (Nat.div_lt_self h (by decide)) (by omega)

/-- Printed digits are read as the number, within a bound. -/
theorem readDigits_toDigits {max n : Nat} (excess : Fault) (h : n ≤ max) :
    readDigits 10 max excess 0 (Nat.toDigits 10 n) = .ok n :=
  (readDigits_eq_ok_iff (Nat.zero_le max)).2
    ⟨fun _ hc => Floating.isDigit_of_mem_toDigits hc, Floating.digitsValue_toDigits n, h⟩

/-- A printed number that is not negative is read back, within the range. -/
theorem readInt_toDigits {max n : Nat} (h : n ≤ max) :
    readInt 10 max (Nat.toDigits 10 n) = .ok n := by
  have hread := readDigits_toDigits .tooLarge h
  have hdigits : ∀ c ∈ Nat.toDigits 10 n, isDigit c := fun c hc =>
    Floating.isDigit_of_mem_toDigits hc
  obtain ⟨c, rest, hcons⟩ := List.exists_cons_of_ne_nil (Nat.toDigits_ne_nil (n := n) (b := 10))
  rw [hcons] at hread hdigits ⊢
  have hsign : c ≠ '+' ∧ c ≠ '-' := by
    constructor <;> rintro rfl <;> exact absurd (hdigits _ List.mem_cons_self) (by decide)
  rw [readInt, hread]
  · rfl
  all_goals simp [hsign]

/-- A printed number with a minus sign is read back, within the range. -/
theorem readInt_neg_toDigits {max n : Nat} (h : n ≤ max + 1) :
    readInt 10 max ('-' :: Nat.toDigits 10 n) = .ok (-n) := by
  rw [readInt, readDigits_toDigits .tooSmall h]
  · rfl
  · exact Nat.toDigits_ne_nil

end Numeral

end ColumnarRecords.Text
