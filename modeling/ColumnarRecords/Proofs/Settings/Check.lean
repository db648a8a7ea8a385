import ColumnarRecords.Proofs.Projection.Directive
import ColumnarRecords.Proofs.Settings.Directive

/-!
# What the check of settings lets through

The check looks at the characters of a directive, and the reading of a directive at its entries. A
directive that can be read has digits, commas and blanks, and before the digits of an entry there
may be a plus sign; this is the one character that the check does not know. So of the directives
that can be read the check rejects those with a plus sign and no others, and rejects a spelling
only: without its plus signs a directive passes and selects the same
(`Settings.check_of_parse`).
-/

namespace ColumnarRecords

open Floating (isDigit)

/-! ## Lists with a separator -/

/-- A member of lists with a separator between them is the separator or in one of the lists. -/
theorem mem_intercalate {α : Type} {sep a : α} {ls : List (List α)}
    (h : a ∈ [sep].intercalate ls) : a = sep ∨ ∃ l ∈ ls, a ∈ l := by
  match ls with
  | [] => cases h
  | [l] => exact .inr ⟨l, List.mem_singleton_self l, by simpa using h⟩
  | l :: l' :: rest =>
    rw [List.intercalate_cons_cons, List.append_assoc, List.mem_append, List.mem_append,
      List.mem_singleton] at h
    obtain hl | hsep | hrest := h
    · exact .inr ⟨l, List.mem_cons_self, hl⟩
    · exact .inl hsep
    · exact (mem_intercalate hrest).imp_right fun ⟨l, hl, ha⟩ => ⟨l, List.mem_cons_of_mem _ hl, ha⟩

/-- Leaving out other members than the separator is leaving them out of each list. -/
theorem filter_intercalate {α : Type} (p : α → Bool) {sep : α} (hsep : p sep)
    (ls : List (List α)) :
    ([sep].intercalate ls).filter p = [sep].intercalate (ls.map (List.filter p)) := by
  match ls with
  | [] => rfl
  | [l] => simp
  | l :: l' :: rest =>
    rw [List.intercalate_cons_cons, List.filter_append, List.filter_append,
      filter_intercalate p hsep (l' :: rest), List.filter_singleton, hsep]
    exact List.intercalate_cons_cons.symm

/-! ## Plus signs -/

namespace Text

/-- A text without its plus signs. -/
def withoutPlus (s : List Char) : List Char := s.filter (· ≠ '+')

/-- A text that has no plus sign stays as it is. -/
theorem withoutPlus_eq_self {s : List Char} (h : '+' ∉ s) : withoutPlus s = s :=
  List.filter_eq_self.2 fun _ hc => decide_eq_true fun heq => h (heq ▸ hc)

/-- There is no plus sign among blanks. -/
theorem plus_notMem_of_blank {s : List Char} (h : ∀ c ∈ s, isBlank c) : '+' ∉ s :=
  fun hc => absurd (h '+' hc) (by decide)

/-- There is no plus sign among digits. -/
theorem plus_notMem_of_digits {s : List Char} (h : ∀ c ∈ s, isDigit c) : '+' ∉ s :=
  fun hc => absurd (h '+' hc) (by decide)

namespace Numeral

variable {s : List Char} {n : Nat}

/-- A text is what is left of it without its sign, or begins with the sign. -/
theorem eq_unsigned_or (s : List Char) : s = unsigned s ∨ s = '+' :: unsigned s := by
  unfold unsigned
  split
  · exact .inr rfl
  · exact .inl rfl

/-- The characters of a text that spells a number are digits, or a plus sign. -/
theorem Spells.isDigit_or (h : Spells s n) : ∀ c ∈ s, isDigit c ∨ c = '+' := by
  intro c hc
  obtain heq | heq := eq_unsigned_or s
  · exact .inl (h.digits c (heq ▸ hc))
  · rw [heq, List.mem_cons] at hc
    exact hc.symm.imp_left (h.digits c)

/-- Without plus signs the digits are left of a text that spells a number. -/
theorem Spells.withoutPlus_eq (h : Spells s n) : withoutPlus s = unsigned s := by
  have hdigits := withoutPlus_eq_self (plus_notMem_of_digits h.digits)
  obtain heq | heq := eq_unsigned_or s
  · rw [heq, ← heq]
    exact heq ▸ hdigits
  · rw [heq]
    exact hdigits

/-- Without plus signs a text still spells the number. -/
theorem Spells.withoutPlus (h : Spells s n) : Spells (Text.withoutPlus s) n := by
  rw [h.withoutPlus_eq]
  have hsame : unsigned (unsigned s) = unsigned s := by
    obtain heq | heq := eq_unsigned_or (unsigned s)
    · exact heq.symm
    · exact absurd (heq ▸ List.mem_cons_self) (plus_notMem_of_digits h.digits)
  exact ⟨hsame.symm ▸ h.ne_nil, hsame.symm ▸ h.digits, hsame.symm ▸ h.value⟩

end Numeral

end Text

/-! ## Directives that can be read -/

namespace Selection

open Text

variable {entry : List Char} {index : UInt64}

/-- The characters of an entry that names an index are blanks, digits, or a plus sign. -/
theorem Names.isBlank_or (h : Names entry index) :
    ∀ c ∈ entry, isBlank c ∨ isDigit c ∨ c = '+' := by
  obtain ⟨numeral, ⟨⟨left, right, rfl, hleft, hright⟩, -, -⟩, hspells⟩ := h
  intro c hc
  rw [List.mem_append, List.mem_append] at hc
  obtain (hc | hc) | hc := hc
  · exact .inl (hleft c hc)
  · exact .inr (hspells.isDigit_or c hc)
  · exact .inl (hright c hc)

/-- Without plus signs an entry still names the index. -/
theorem Names.withoutPlus (h : Names entry index) : Names (Text.withoutPlus entry) index := by
  obtain ⟨numeral, ⟨⟨left, right, rfl, hleft, hright⟩, -, -⟩, hspells⟩ := h
  have hdigit : ∀ c ∈ Text.withoutPlus numeral, isBlank c = false := by
    rw [hspells.withoutPlus_eq]
    exact fun c hc => isBlank_of_isDigit (hspells.digits c hc)
  refine ⟨Text.withoutPlus numeral, ⟨⟨left, right, ?_, hleft, hright⟩, ?_, ?_⟩,
    hspells.withoutPlus⟩
  · rw [Text.withoutPlus, List.filter_append, List.filter_append]
    exact congrArg₂ (fun l r => l ++ Text.withoutPlus numeral ++ r)
      (withoutPlus_eq_self (plus_notMem_of_blank hleft))
      (withoutPlus_eq_self (plus_notMem_of_blank hright))
  · exact fun c hc => hdigit c (List.mem_of_mem_head? hc)
  · exact fun c hc => hdigit c (List.mem_of_mem_getLast? hc)

/-- Each of the entries that name indices names one. -/
theorem exists_names_of_mem {entries : List (List Char)} {list : List UInt64}
    (h : List.Forall₂ Names entries list) (hentry : entry ∈ entries) :
    ∃ index, Names entry index := by
  induction h with
  | nil => cases hentry
  | cons hnames _ ih =>
    obtain rfl | hentry := List.mem_cons.1 hentry
    · exact ⟨_, hnames⟩
    · exact ih hentry

/-- The characters of a directive that can be read are blanks, digits, commas and plus signs. -/
theorem isDirectivePart_or_of_parse {directive : String} {selection : Selection}
    (h : parse directive = .ok selection) :
    ∀ c ∈ directive.toList, Settings.isDirectivePart c ∨ c = '+' := by
  have hblank : ∀ c, isBlank c → Settings.isDirectivePart c := fun c hc => by
    simp [Settings.isDirectivePart, hc]
  intro c hc
  cases selection with
  | all => exact .inl (hblank c (parse_eq_all_iff.1 h c hc))
  | indices list =>
    have hnames := parse_eq_indices_iff.1 h
    have hjoined : [','].intercalate (directive.toList.splitOn ',') = directive.toList :=
      List.intercalate_splitOn ','
    rw [← hjoined] at hc
    obtain rfl | ⟨entry, hentry, hc⟩ := mem_intercalate hc
    · exact .inl (by decide)
    · obtain ⟨index, hindex⟩ := exists_names_of_mem hnames hentry
      obtain hc | hc | hc := hindex.isBlank_or c hc
      · exact .inl (hblank c hc)
      · exact .inl (Settings.isDirectivePart_of_isDigit hc).1
      · exact .inr hc

/-- Without plus signs a directive that can be read selects the same. -/
theorem parse_withoutPlus {directive : String} {selection : Selection}
    (h : parse directive = .ok selection) :
    parse (String.ofList (withoutPlus directive.toList)) = .ok selection := by
  cases selection with
  | all =>
    have hblank := parse_eq_all_iff.1 h
    rw [withoutPlus_eq_self (plus_notMem_of_blank hblank), String.ofList_toList]
    exact h
  | indices list =>
    have hnames := parse_eq_indices_iff.1 h
    -- The entries are those of the directive, each without its plus sign.
    have hentries : (withoutPlus directive.toList).splitOn ',' =
        (directive.toList.splitOn ',').map withoutPlus := by
      have hcomma : ∀ entry ∈ (directive.toList.splitOn ',').map withoutPlus, ',' ∉ entry := by
        intro entry hentry hc
        obtain ⟨before, hbefore, rfl⟩ := List.mem_map.1 hentry
        obtain ⟨index, hindex⟩ := exists_names_of_mem hnames hbefore
        obtain hc | hc | hc := hindex.withoutPlus.isBlank_or ',' hc <;>
          exact absurd hc (by decide)
      have hne : (directive.toList.splitOn ',').map withoutPlus ≠ [] := by
        simp [List.splitOn_ne_nil]
      have hkept : decide (',' ≠ '+') = true := by decide
      have hfilter := filter_intercalate (· ≠ '+') hkept (directive.toList.splitOn ',')
      rw [List.intercalate_splitOn] at hfilter
      rw [withoutPlus, hfilter]
      exact List.splitOn_intercalate ',' hcomma hne
    rw [parse_eq_indices_iff, String.toList_ofList, hentries, List.forall₂_map_left_iff]
    exact hnames.imp fun _ _ => Names.withoutPlus

end Selection

/-! ## The check -/

namespace Settings

/-- The check passes exactly if there is a row in a batch and the directive has parts of directives
alone. -/
theorem check_eq_ok_iff {s : Settings} :
    s.check = .ok () ↔
      0 < s.batchSize ∧ ∀ c ∈ s.requiredFields.toList, isDirectivePart c := by
  unfold check
  split_ifs with hbatch hall
  · exact iff_of_false (by simp) fun h => absurd hbatch h.1.ne'
  · exact iff_of_true rfl ⟨Nat.pos_of_ne_zero hbatch, List.all_eq_true.1 hall⟩
  · exact iff_of_false (by simp) fun h => hall (List.all_eq_true.2 h.2)

/-- A directive that can be read passes the check exactly if it has no plus sign, and is reported
otherwise. Without its plus signs every directive that can be read passes and selects the same. -/
theorem check_of_parse {s : Settings} {selection : Selection} (hbatch : 0 < s.batchSize)
    (h : Selection.parse s.requiredFields = .ok selection) :
    s.check = (if '+' ∈ s.requiredFields.toList then .error (.notIndices s.requiredFields)
        else .ok ()) ∧
      let plain := String.ofList (Text.withoutPlus s.requiredFields.toList)
      { s with requiredFields := plain }.check = .ok () ∧
        Selection.parse plain = .ok selection := by
  have hparts := Selection.isDirectivePart_or_of_parse h
  refine ⟨?_, check_eq_ok_iff.2 ⟨hbatch, fun c hc => ?_⟩, Selection.parse_withoutPlus h⟩
  · split_ifs with hplus
    · have hpart : isDirectivePart '+' = false := by decide
      have hall : s.requiredFields.toList.all isDirectivePart = false :=
        List.all_eq_false.2 ⟨'+', hplus, by simp [hpart]⟩
      rw [check, if_neg hbatch.ne', hall]
      rfl
    · exact check_eq_ok_iff.2 ⟨hbatch, fun c hc =>
        (hparts c hc).resolve_right fun heq => hplus (heq ▸ hc)⟩
  · rw [String.toList_ofList] at hc
    obtain ⟨hc, hne⟩ := List.mem_filter.1 hc
    exact (hparts c hc).resolve_right (of_decide_eq_true hne)

/-- The directive of two indices, one of them with a plus sign and a blank before it, is rejected;
without the plus sign it passes and selects the same. -/
theorem check_signed :
    0 < (Settings.mk "7,\u3000+0" 1024 0 0).batchSize ∧
      Selection.parse "7,\u3000+0" = .ok (.indices [7, 0]) ∧
      check ⟨"7,\u3000+0", 1024, 0, 0⟩ = .error (.notIndices "7,\u3000+0") ∧
      check ⟨"7,\u30000", 1024, 0, 0⟩ = .ok () ∧
      Selection.parse "7,\u30000" = .ok (.indices [7, 0]) := by
  have hparse : Selection.parse "7,\u3000+0" = .ok (.indices [7, 0]) := by decide
  have hcheck := check_of_parse (s := ⟨"7,\u3000+0", 1024, 0, 0⟩) (by decide) hparse
  exact ⟨by decide, hparse, hcheck.1, hcheck.2.1, hcheck.2.2⟩

/-- The check rejects a directive that can be read. -/
theorem check_ne_ok_signed :
    Selection.parse "+1" = .ok (.indices [1]) ∧
      check ⟨"+1", 1024, 0, 0⟩ = .error (.notIndices "+1") ∧
      ¬∀ s : Settings, 0 < s.batchSize →
        (∃ selection, Selection.parse s.requiredFields = .ok selection) → s.check = .ok () := by
  have hparse : Selection.parse "+1" = .ok (.indices [1]) := by decide
  have hcheck : check ⟨"+1", 1024, 0, 0⟩ = .error (.notIndices "+1") := by decide
  refine ⟨hparse, hcheck, fun h => ?_⟩
  have hok := h ⟨"+1", 1024, 0, 0⟩ (by decide) ⟨_, hparse⟩
  rw [hcheck] at hok
  cases hok

end Settings

end ColumnarRecords
