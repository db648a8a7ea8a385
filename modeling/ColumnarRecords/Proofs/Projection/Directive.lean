import Mathlib.Data.List.Forall2
import ColumnarRecords.Projection.Selection
import ColumnarRecords.Proofs.Descriptor.Sound
import ColumnarRecords.Proofs.Text.Spelling

/-!
# The grammar of directives

A directive selects all fields exactly if it has blanks alone, and the fields at a list of indices
exactly if its entries name these, one each (`Selection.Names`). Of any other directive the first
entry that names no index is reported, as it stands between its blanks
(`Selection.parse_exact`).

A selection is printed as a directive that selects the same again, with one exception
(`Selection.parse_text`): the list of no index has no entry to print, and the empty directive
selects all fields.
-/

namespace ColumnarRecords

open Text

/-! ## Lists that are read member by member -/

/-- What is read of a list is what is read of each of its members. -/
theorem mapM_eq_ok_iff {α β ε : Type} {f : α → Except ε β} {l : List α} {r : List β} :
    l.mapM f = .ok r ↔ List.Forall₂ (fun a b => f a = .ok b) l r := by
  induction l generalizing r with
  | nil =>
    rw [List.mapM_nil, List.forall₂_nil_left_iff]
    exact ⟨fun h => (Except.ok.inj h).symm, fun h => h ▸ rfl⟩
  | cons a rest ih =>
    rw [List.mapM_cons, List.forall₂_cons_left_iff]
    constructor
    · intro h
      obtain ⟨b, hb, h⟩ := Descriptor.bind_eq_ok.1 h
      obtain ⟨bs, hbs, h⟩ := Descriptor.bind_eq_ok.1 h
      exact ⟨b, bs, hb, ih.1 hbs, (Except.ok.inj h).symm⟩
    · rintro ⟨b, bs, hb, hbs, rfl⟩
      rw [hb, ih.2 hbs]
      rfl

/-- A member that comes after members of a kind is the first one or comes after it. -/
theorem exists_after_cons {α : Type} {p q : α → Prop} {a : α} {l : List α} :
    (∃ before x after, a :: l = before ++ x :: after ∧ (∀ y ∈ before, p y) ∧ q x) ↔
      q a ∨ p a ∧ ∃ before x after, l = before ++ x :: after ∧ (∀ y ∈ before, p y) ∧ q x := by
  constructor
  · rintro ⟨_ | ⟨b, before⟩, x, after, hl, hbefore, hx⟩
    · obtain ⟨rfl, rfl⟩ := List.cons.inj hl
      exact .inl hx
    · obtain ⟨rfl, rfl⟩ := List.cons.inj hl
      obtain ⟨ha, hbefore⟩ := List.forall_mem_cons.1 hbefore
      exact .inr ⟨ha, before, x, after, rfl, hbefore, hx⟩
  · rintro (ha | ⟨ha, before, x, after, rfl, hbefore, hx⟩)
    · exact ⟨[], a, l, rfl, by simp, ha⟩
    · exact ⟨a :: before, x, after, rfl, List.forall_mem_cons.2 ⟨ha, hbefore⟩, hx⟩

/-- Reading a list fails as the first of its members does that cannot be read. -/
theorem mapM_eq_error_iff {α β ε : Type} {f : α → Except ε β} {l : List α} {e : ε} :
    l.mapM f = .error e ↔
      ∃ before a after, l = before ++ a :: after ∧ (∀ x ∈ before, ∃ b, f x = .ok b) ∧
        f a = .error e := by
  induction l with
  | nil => simp [pure, Except.pure]
  | cons a rest ih =>
    rw [List.mapM_cons, exists_after_cons, ← ih]
    cases f a with
    | error e' => simp [bind, Except.bind]
    | ok b => cases rest.mapM f <;> simp [bind, Except.bind, pure, Except.pure]

namespace Selection

/-! ## Reading a directive -/

/-- An entry of a directive names an index: what stands between its blanks spells the index. -/
def Names (entry : List Char) (index : UInt64) : Prop :=
  ∃ numeral, Trims entry numeral ∧ Numeral.Spells numeral index.toNat

/-- The index that an entry names is read from it. -/
theorem readEntry_eq_ok_iff {directive : String} {entry : List Char} {index : UInt64} :
    readEntry directive entry = .ok index ↔ Names entry index := by
  unfold readEntry
  constructor
  · intro h
    split at h
    · rename_i n hn
      obtain ⟨hle, hspells⟩ := Numeral.readNat_eq_ok_iff_spells.1 hn
      obtain rfl := Except.ok.inj h
      refine ⟨trim entry, trims_trim entry, ?_⟩
      have hlt : n < 2 ^ 64 := by
        have hmax : Numeral.maxWord = 2 ^ 64 - 1 := rfl
        omega
      rwa [UInt64.toNat_ofNat_of_lt' hlt]
    · cases h
  · rintro ⟨numeral, htrims, hspells⟩
    have hle : index.toNat ≤ Numeral.maxWord := Nat.le_sub_one_of_lt index.toNat_lt
    rw [trim_eq_iff.2 htrims, hspells.readNat hle]
    simp only [UInt64.ofNat_toNat]

/-- An entry that names no index is reported as it stands between its blanks. -/
theorem readEntry_eq_error_iff {directive : String} {entry : List Char} {e : ReadError} :
    readEntry directive entry = .error e ↔
      ∃ numeral fault, Trims entry numeral ∧ Numeral.Misspells Numeral.maxWord numeral fault ∧
        e = .invalidDirective directive (String.ofList numeral) fault := by
  unfold readEntry
  constructor
  · intro h
    split at h
    · cases h
    · rename_i fault hfault
      exact ⟨trim entry, fault, trims_trim entry, Numeral.readNat_eq_error_iff.1 hfault,
        (Except.error.inj h).symm⟩
  · rintro ⟨numeral, fault, htrims, hfault, rfl⟩
    rw [trim_eq_iff.2 htrims, hfault.readNat]

/-- A directive selects all fields exactly if it has blanks alone. -/
theorem parse_eq_all_iff {directive : String} :
    parse directive = .ok .all ↔ ∀ c ∈ directive.toList, isBlank c := by
  rw [← trim_eq_nil_iff]
  unfold parse
  split_ifs with hblank
  · exact iff_of_true rfl hblank
  · refine iff_of_false (fun h => ?_) hblank
    obtain ⟨list, -, h⟩ := Descriptor.map_eq_ok.1 h
    cases h

/-- A directive of blanks alone has no entry that names an index. -/
theorem not_forall₂_names_of_blank {directive : String} {list : List UInt64}
    (hblank : ∀ c ∈ directive.toList, isBlank c) :
    ¬List.Forall₂ Names (directive.toList.splitOn ',') list := by
  intro h
  have hcomma : ',' ∉ directive.toList := fun hc => absurd (hblank ',' hc) (by decide)
  rw [List.splitOn_eq_singleton hcomma] at h
  obtain ⟨index, _, ⟨numeral, htrims, hspells⟩, -, -⟩ := List.forall₂_cons_left_iff.1 h
  obtain rfl : [] = numeral := (trim_eq_nil_iff.2 hblank).symm.trans (trim_eq_iff.2 htrims)
  exact hspells.ne_nil rfl

/-- A directive selects the fields at the indices that its entries name. -/
theorem parse_eq_indices_iff {directive : String} {list : List UInt64} :
    parse directive = .ok (.indices list) ↔
      List.Forall₂ Names (directive.toList.splitOn ',') list := by
  unfold parse
  split_ifs with hblank
  · exact iff_of_false (by simp) (not_forall₂_names_of_blank (trim_eq_nil_iff.1 hblank))
  · rw [Descriptor.map_eq_ok]
    simp only [mapM_eq_ok_iff, readEntry_eq_ok_iff]
    constructor
    · rintro ⟨list', h, heq⟩
      obtain rfl := Selection.indices.inj heq
      exact h
    · exact fun h => ⟨list, h, rfl⟩

/-- Of the entries of a directive, the first that names no index has this text between its blanks,
and this is what is wrong with it. -/
def FirstBad (entries : List (List Char)) (numeral : List Char) (fault : Numeral.Fault) : Prop :=
  ∃ before entry after, entries = before ++ entry :: after ∧
    (∀ other ∈ before, ∃ index, Names other index) ∧ (∀ index, ¬Names entry index) ∧
    Trims entry numeral ∧ Numeral.Misspells Numeral.maxWord numeral fault

/-- An entry that is misspelled names no index. -/
theorem not_names_of_misspells {entry numeral : List Char} {fault : Numeral.Fault}
    (htrims : Trims entry numeral) (hfault : Numeral.Misspells Numeral.maxWord numeral fault)
    (index : UInt64) : ¬Names entry index := by
  intro h
  have hok : readEntry "" entry = .ok index := readEntry_eq_ok_iff.2 h
  have herror : readEntry "" entry = .error (.invalidDirective "" (String.ofList numeral) fault) :=
    readEntry_eq_error_iff.2 ⟨numeral, fault, htrims, hfault, rfl⟩
  cases hok.symm.trans herror

/-- A directive is rejected for its first entry that names no index. -/
theorem parse_eq_error_iff {directive : String} {e : ReadError} :
    parse directive = .error e ↔
      (∃ c ∈ directive.toList, isBlank c = false) ∧
        ∃ numeral fault, FirstBad (directive.toList.splitOn ',') numeral fault ∧
          e = .invalidDirective directive (String.ofList numeral) fault := by
  have hsome : (∃ c ∈ directive.toList, isBlank c = false) ↔ ¬trim directive.toList = [] := by
    simp [trim_eq_nil_iff]
  rw [hsome]
  unfold parse
  split_ifs with hblank
  · exact iff_of_false (by simp) fun h => h.1 hblank
  · rw [Descriptor.map_eq_error, mapM_eq_error_iff]
    simp only [readEntry_eq_ok_iff, readEntry_eq_error_iff, hblank, not_false_iff, true_and]
    constructor
    · rintro ⟨before, entry, after, hentries, hbefore, numeral, fault, htrims, hfault, rfl⟩
      exact ⟨numeral, fault, ⟨before, entry, after, hentries, hbefore,
        not_names_of_misspells htrims hfault, htrims, hfault⟩, rfl⟩
    · rintro ⟨numeral, fault, ⟨before, entry, after, hentries, hbefore, -, htrims, hfault⟩, rfl⟩
      exact ⟨before, entry, after, hentries, hbefore, numeral, fault, htrims, hfault, rfl⟩

/-- What a directive selects, and for what it is rejected: all fields if it has blanks alone; else
the fields at the indices that its entries name, in their order; and else it is rejected with the
first entry that names none, as it stands between its blanks. -/
theorem parse_exact (directive : String) :
    (parse directive = .ok .all ↔ ∀ c ∈ directive.toList, isBlank c) ∧
      (∀ list, parse directive = .ok (.indices list) ↔
        List.Forall₂ Names (directive.toList.splitOn ',') list) ∧
      ∀ e, parse directive = .error e ↔
        (∃ c ∈ directive.toList, isBlank c = false) ∧
          ∃ numeral fault, FirstBad (directive.toList.splitOn ',') numeral fault ∧
            e = .invalidDirective directive (String.ofList numeral) fault :=
  ⟨parse_eq_all_iff, fun _ => parse_eq_indices_iff, fun _ => parse_eq_error_iff⟩

/-! ## Printing a selection -/

/-- The digits of an index name it. -/
theorem names_toDigits (index : UInt64) : Names (Nat.toDigits 10 index.toNat) index := by
  refine ⟨_, trim_eq_iff.1 (trim_eq_self fun c hc => ?_), Numeral.spells_toDigits _⟩
  exact isBlank_of_isDigit (Floating.isDigit_of_mem_toDigits hc)

/-- The directive of indices is their digits with commas between them. -/
theorem toList_text_indices (list : List UInt64) :
    (text (.indices list)).toList =
      [','].intercalate (list.map fun index => Nat.toDigits 10 index.toNat) := by
  have hcomma : ",".toList = [','] := rfl
  rw [text, String.toList_intercalate, List.map_map, hcomma]
  refine congrArg _ (List.map_congr_left fun index _ => ?_)
  exact Nat.toList_repr

/-- The directive of indices is read as them, if there are any. -/
theorem parse_text_indices {list : List UInt64} (hne : list ≠ []) :
    parse (text (.indices list)) = .ok (.indices list) := by
  have hcomma : ∀ entry ∈ list.map fun index => Nat.toDigits 10 index.toNat, ',' ∉ entry := by
    intro entry hentry hmem
    obtain ⟨index, -, rfl⟩ := List.mem_map.1 hentry
    exact absurd (Floating.isDigit_of_mem_toDigits hmem) (by decide)
  rw [parse_eq_indices_iff, toList_text_indices,
    List.splitOn_intercalate ',' hcomma (by simpa using hne), List.forall₂_map_left_iff]
  exact List.forall₂_same.2 fun index _ => names_toDigits index

/-- A selection that is printed is read back, unless it is the one of no index: that is printed as
the empty directive and read as the selection of all fields. -/
theorem parse_text (selection : Selection) :
    parse selection.text = .ok (if selection = .indices [] then .all else selection) ∧
      (parse selection.text = .ok selection ↔ selection ≠ .indices []) := by
  have hempty : parse "" = .ok .all := parse_eq_all_iff.2 fun c hc => absurd hc List.not_mem_nil
  cases selection with
  | all => simpa [text] using hempty
  | indices list =>
    by_cases hlist : list = []
    · subst hlist
      have htext : text (.indices []) = "" := rfl
      rw [htext, hempty]
      simp
    · have hread := parse_text_indices hlist
      rw [hread]
      simp [hlist]

/-- The selection of no index is read back as the one of all fields, which has the same text. -/
theorem parse_text_no_index :
    text (.indices []) = text .all ∧ parse (text (.indices [])) = .ok .all ∧
      parse (text (.indices [])) ≠ .ok (.indices []) := by
  have htext : text (.indices []) = text .all := rfl
  have hparse : parse (text (.indices [])) = .ok .all := by decide
  refine ⟨htext, hparse, ?_⟩
  rw [hparse]
  decide

end Selection

end ColumnarRecords
