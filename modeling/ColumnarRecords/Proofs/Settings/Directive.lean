import ColumnarRecords.Proofs.Settings.Layering
import ColumnarRecords.Proofs.Text.Numeral

/-!
# Directives that were settings

A directive that stands in a variable of the environment is read as a truth value, a whole number
or a floating point number if it can be, and what is checked and parsed is the text that the
setting prints. `Settings.selectionOf?_text` tells what the printed text selects, by the kind of
the setting, and `Settings.selectionOf?_by_ofVariable` what the directive itself selects. A truth
value selects nothing on both ways and a text the same; a number selects the field at one index, if
it prints as a whole number, or is itself written in digits alone.
-/

namespace ColumnarRecords

open Floating (digitsValue isDigit)

/-- The selection of the field at one index, if that is a word. -/
def Selection.single? (n : Nat) : Option Selection :=
  if n ≤ Text.Numeral.maxWord then some (.indices [UInt64.ofNat n]) else none

/-- The decimal that the text of a magnitude shows. -/
def Floating.decimal (f : Format) (significand : Nat) (exponent : Int) : Decimal :=
  if significand = 0 then ⟨0, 0⟩ else shortest f significand exponent

/-- The whole number that the text of a number is, if it is one without sign. -/
def Floating.Number.whole? (f : Format) : Number → Option Nat
  | .finite false significand exponent =>
    let d := decimal f significand exponent
    if 0 ≤ d.exponent then some (d.digits * 10 ^ d.exponent.toNat) else none
  | _ => none

namespace Settings

/-- The selection of a directive that passes the check and is parsed. -/
def selectionOf? (directive : String) : Option Selection :=
  if directive.toList.all isDirectivePart then (Selection.parse directive).toOption else none

/-- The selection of the directive that a setting is. -/
def selectionOfSetting? : Setting → Option Selection
  | .text s => selectionOf? s
  | .int n => if 0 ≤ n then Selection.single? n.toNat else none
  | .float bits =>
    ((Floating.ofBits .binary64 bits).whole? .binary64).bind Selection.single?
  | _ => none

/-- A directive with a character that may not stand in one selects nothing. -/
theorem selectionOf?_of_mem {directive : String} {c : Char} (hc : c ∈ directive.toList)
    (hpart : isDirectivePart c = false) : selectionOf? directive = none := by
  rw [selectionOf?, if_neg]
  intro hall
  rw [List.all_eq_true.mp hall c hc] at hpart
  exact absurd hpart (by decide)

/-- A digit may stand in a directive, and is no comma. -/
theorem isDirectivePart_of_isDigit {c : Char} (h : isDigit c) :
    isDirectivePart c = true ∧ c ≠ ',' := by
  constructor
  · have hdigit : ('0' ≤ c && c ≤ '9') = true := h
    simp only [isDirectivePart, hdigit, Bool.true_or]
  · rintro rfl
    exact absurd h (by decide)

/-- A directive of digits alone selects the field at the index that they write. -/
theorem selectionOf?_of_digits {digits : List Char} (hne : digits ≠ [])
    (h : ∀ c ∈ digits, isDigit c) :
    selectionOf? (String.ofList digits) = Selection.single? (digitsValue 0 digits) := by
  have hall : digits.all isDirectivePart = true :=
    List.all_eq_true.mpr fun c hc => (isDirectivePart_of_isDigit (h c hc)).1
  have htrim : Text.trim digits = digits :=
    Text.trim_eq_self fun c hc => Text.isBlank_of_isDigit (h c hc)
  have hsplit : digits.splitOn ',' = [digits] :=
    List.splitOn_eq_singleton fun hc => (isDirectivePart_of_isDigit (h ',' hc)).2 rfl
  have hread : ∀ n, Text.Numeral.readNat 10 Text.Numeral.maxWord digits = .ok n ↔ _ :=
    fun n => Text.Numeral.readNat_eq_ok_iff hne h
  simp only [selectionOf?, Selection.parse, Selection.readEntry, String.toList_ofList, hall,
    if_true, htrim, hne, if_false, hsplit, List.mapM_cons, List.mapM_nil, Selection.single?]
  split_ifs with hle
  · simp [(hread _).mpr ⟨rfl, hle⟩, Except.map, Except.toOption, bind, Except.bind, pure,
      Except.pure]
  · cases hr : Text.Numeral.readNat 10 Text.Numeral.maxWord digits with
    | error e => rfl
    | ok n =>
      obtain ⟨rfl, hn⟩ := (hread n).mp hr
      exact absurd hn hle

end Settings

namespace Floating.Layout

/-- The plain text of a decimal without fraction: its digits, and the zeros of its exponent. -/
theorem decimalText_plain_of_nonneg {d : Decimal} (h : 0 ≤ d.exponent) :
    plain.decimalText d = Nat.toDigits 10 d.digits ++ List.replicate d.exponent.toNat '0' := by
  have hlen : 0 < (Nat.toDigits 10 d.digits).length := Nat.length_toDigits_pos
  simp only [decimalText, plain, positionalText]
  rw [if_neg (by omega), if_pos (by omega)]
  simp only [Bool.false_eq_true, if_false, List.append_nil]
  congr 2
  omega

/-- The plain text of a decimal with a fraction has a point. -/
theorem point_mem_decimalText_plain {d : Decimal} (h : d.exponent < 0) :
    '.' ∈ plain.decimalText d := by
  simp only [decimalText, plain, positionalText]
  split
  · simp
  · rw [if_neg (by omega)]
    simp

end Floating.Layout

namespace Settings

open Floating.Layout (plain decimalText_plain_of_nonneg point_mem_decimalText_plain)

/-- The plain text of a number selects the field at the index that the number is, if it shows as a
whole number without sign. -/
theorem selectionOf?_plain (number : Floating.Number) :
    selectionOf? (plain.text .binary64 number) =
      (number.whole? .binary64).bind Selection.single? := by
  match number with
  | .nan => exact selectionOf?_of_mem (c := 'N') (by decide) (by decide)
  | .infinite negative =>
    exact selectionOf?_of_mem (c := 'i') (by cases negative <;> decide) (by decide)
  | .finite true significand exponent =>
    exact selectionOf?_of_mem (c := '-') (by simp [Floating.Layout.text]) (by decide)
  | .finite false significand exponent =>
    have htext : plain.text .binary64 (.finite false significand exponent) =
        String.ofList (plain.decimalText (Floating.decimal .binary64 significand exponent)) := by
      simp [Floating.Layout.text, Floating.decimal]
    -- Only the exponent decides whether the text is one of digits.
    simp only [htext, Floating.Number.whole?]
    generalize Floating.decimal .binary64 significand exponent = d
    split_ifs with h
    · rw [decimalText_plain_of_nonneg h, selectionOf?_of_digits, Option.bind_some,
        Floating.digitsValue_toDigits_append_zeros]
      · simp [Nat.toDigits_ne_nil]
      · intro c hc
        obtain hc | hc := List.mem_append.mp hc
        · exact Floating.isDigit_of_mem_toDigits hc
        · rw [(List.mem_replicate.mp hc).2]
          decide
    · refine selectionOf?_of_mem (c := '.') ?_ (by decide)
      simpa using point_mem_decimalText_plain (by omega)

/-- What the text of a setting selects, by the kind of the setting. -/
theorem selectionOf?_text {v : Setting} {t : String} (h : v.text? = some t) :
    selectionOf? t = selectionOfSetting? v := by
  cases v with
  | bool b =>
    obtain rfl := Option.some.inj h
    exact selectionOf?_of_mem (c := 'e') (by cases b <;> decide) (by decide)
  | int n =>
    obtain rfl := Option.some.inj h
    rw [selectionOfSetting?]
    split_ifs with hn
    · obtain ⟨m, rfl⟩ := Int.eq_ofNat_of_zero_le hn
      have htext : toString (m : Int) = String.ofList (Nat.toDigits 10 m) :=
        Nat.repr_eq_ofList_toDigits
      rw [htext, selectionOf?_of_digits Nat.toDigits_ne_nil
        fun c hc => Floating.isDigit_of_mem_toDigits hc, Floating.digitsValue_toDigits]
      rfl
    · obtain ⟨m, rfl⟩ : ∃ m, n = Int.negSucc m := Int.eq_negSucc_of_lt_zero (by omega)
      exact selectionOf?_of_mem (c := '-') (by simp [Int.toString_eq_repr, Int.repr]) (by decide)
  | float bits =>
    obtain rfl := Option.some.inj h
    exact selectionOf?_plain _
  | text s => rw [selectionOfSetting?, Option.some.inj h]
  | unset => cases h
  | table entries => cases h
  | list items => cases h

/-- What may stand in a directive has no case. -/
theorem toLower_of_isDirectivePart {c : Char} (h : isDirectivePart c) : c.toLower = c := by
  have hupper : ¬ (c.val ≥ 'A'.val ∧ c.val ≤ 'Z'.val) := by
    rintro ⟨hlow, hhigh⟩
    have hlow : 65 ≤ c.toNat := UInt32.le_iff_toNat_le.mp hlow
    have hhigh : c.toNat ≤ 90 := UInt32.le_iff_toNat_le.mp hhigh
    have hdigit : isDigit c = false := by
      rw [← Bool.not_eq_true, Floating.isDigit_iff]
      omega
    have hblank : Text.isBlank c = false := by
      simp only [Text.isBlank, Bool.or_eq_false_iff, Bool.and_eq_false_iff,
        decide_eq_false_iff_not, beq_eq_false_iff_ne]
      omega
    simp only [isDigit] at hdigit
    simp only [isDirectivePart, hdigit, hblank, Bool.or_false, Bool.false_or,
      decide_eq_true_eq] at h
    subst h
    exact absurd hlow (by decide)
  exact dif_neg hupper

/-- A text of parts of a directive is its own lower case. -/
theorem map_toLower_of_parts {s : List Char} (h : ∀ c ∈ s, isDirectivePart c) :
    s.map Char.toLower = s :=
  (List.map_congr_left fun c hc => toLower_of_isDirectivePart (h c hc)).trans s.map_id

/-- A text of parts of a directive is different from one that has another character. -/
theorem ne_of_parts {s t : List Char} (h : ∀ c ∈ s, isDirectivePart c) {c : Char} (hc : c ∈ t)
    (hpart : isDirectivePart c = false) : s ≠ t := by
  rintro rfl
  rw [h c hc] at hpart
  exact absurd hpart (by decide)

/-- A decimal written with parts of a directive alone has digits alone. -/
theorem isDigit_of_readDecimal? {s : List Char} {d : Nat × Int}
    (h : Floating.readDecimal? s = some d) (hparts : ∀ c ∈ s, isDirectivePart c) :
    s ≠ [] ∧ ∀ c ∈ s, isDigit c := by
  constructor
  · rintro rfl
    cases h
  · cases hrest : s.dropWhile isDigit with
    | nil => exact List.dropWhile_eq_nil_iff.mp hrest
    | cons c rest =>
      -- The rest begins with neither a point nor an exponent, so it is not read.
      have hc : isDirectivePart c :=
        hparts c ((List.dropWhile_sublist _).subset (hrest ▸ List.mem_cons_self))
      have hne : c ≠ '.' ∧ c ≠ 'e' ∧ c ≠ 'E' := by
        refine ⟨?_, ?_, ?_⟩ <;> rintro rfl <;> exact absurd hc (by decide)
      simp [Floating.readDecimal?, hrest, hne] at h

/-- A floating point number written with parts of a directive alone has digits alone. -/
theorem isDigit_of_readBits? {f : Floating.Format} {s : List Char} {bits : Nat}
    (h : Floating.readBits? f s = some bits) (hparts : ∀ c ∈ s, isDirectivePart c) :
    s ≠ [] ∧ ∀ c ∈ s, isDigit c := by
  have hmagnitude : Floating.readMagnitude? f s = some bits := by
    unfold Floating.readBits? at h
    split at h
    · exact absurd (hparts '-' List.mem_cons_self) (by decide)
    · exact absurd (hparts '+' List.mem_cons_self) (by decide)
    · exact h
  -- The names of what is no decimal begin with letters.
  simp only [Floating.readMagnitude?, map_toLower_of_parts hparts] at hmagnitude
  rw [if_neg, if_neg] at hmagnitude
  · obtain ⟨d, hd, -⟩ := Option.map_eq_some_iff.mp hmagnitude
    exact isDigit_of_readDecimal? hd hparts
  · exact ne_of_parts hparts (c := 'n') (by decide) (by decide)
  · rintro (h | h) <;> exact ne_of_parts hparts (c := 'i') (by decide) (by decide) h

/-- A truth value is no directive. -/
theorem not_parts_of_bool {directive : String} {b : Bool}
    (h : String.ofList (directive.toList.map Char.toLower) = toString b) :
    ¬ ∀ c ∈ directive.toList, isDirectivePart c := by
  intro hparts
  rw [map_toLower_of_parts hparts, String.ofList_toList] at h
  subst h
  exact absurd (hparts 'e' (by cases b <;> decide)) (by decide)

/-- A directive that does not become a text consists of digits. -/
theorem isDigit_of_ofVariable {directive : String}
    (h : Setting.ofVariable directive ≠ .text directive)
    (hparts : ∀ c ∈ directive.toList, isDirectivePart c) :
    directive.toList ≠ [] ∧ ∀ c ∈ directive.toList, isDigit c := by
  obtain ⟨b, -, hb⟩ | ⟨n, -, hint⟩ | ⟨bits, -, hbits⟩ | htext := Setting.ofVariable_cases directive
  · exact absurd hparts (not_parts_of_bool hb)
  · obtain ⟨hne, hdigits, -⟩ := Text.Numeral.digits_of_readInt
      (fun h => absurd (hparts '+' h) (by decide)) (fun h => absurd (hparts '-' h) (by decide)) hint
    exact ⟨hne, hdigits⟩
  · exact isDigit_of_readBits? hbits hparts
  · exact absurd htext h

/-- What a directive that would not become a text selects itself: the field at the index that its
digits write, if it has nothing else. -/
theorem selectionOf?_of_ofVariable {directive : String}
    (h : Setting.ofVariable directive ≠ .text directive) :
    selectionOf? directive =
      if directive.toList.all isDigit then Selection.single? (digitsValue 0 directive.toList)
      else none := by
  split_ifs with hdigits
  · have hdigits := List.all_eq_true.mp hdigits
    have hparts := fun c hc => (isDirectivePart_of_isDigit (hdigits c hc)).1
    have hselects := selectionOf?_of_digits (isDigit_of_ofVariable h hparts).1 hdigits
    rwa [String.ofList_toList] at hselects
  · rw [selectionOf?, if_neg]
    intro hparts
    exact hdigits (List.all_eq_true.mpr (isDigit_of_ofVariable h (List.all_eq_true.mp hparts)).2)

/-- What a directive selects itself, by what it becomes in a variable: the same unless it becomes a
number, and then the field at one index, if it is written in digits alone. -/
theorem selectionOf?_by_ofVariable (directive : String) :
    match Setting.ofVariable directive with
    | .int n =>
      selectionOf? directive =
        if directive.toList.all isDigit then Selection.single? n.toNat else none
    | .float _ =>
      selectionOf? directive =
        if directive.toList.all isDigit then Selection.single? (digitsValue 0 directive.toList)
        else none
    | v => selectionOf? directive = selectionOfSetting? v := by
  obtain ⟨b, hv, hb⟩ | ⟨n, hv, hint⟩ | ⟨bits, hv, hbits⟩ | hv := Setting.ofVariable_cases directive
  · rw [hv]
    exact if_neg fun h => not_parts_of_bool hb (List.all_eq_true.mp h)
  · simp only [hv]
    rw [selectionOf?_of_ofVariable (by simp [hv])]
    split_ifs with hdigits
    · have hdigits := List.all_eq_true.mp hdigits
      obtain ⟨-, -, rfl⟩ := Text.Numeral.digits_of_readInt
        (fun h => absurd (hdigits '+' h) (by decide)) (fun h => absurd (hdigits '-' h) (by decide))
        hint
      rfl
    · rfl
  · simp only [hv]
    exact selectionOf?_of_ofVariable (by simp [hv])
  · simp only [hv]
    rfl

end Settings

end ColumnarRecords
