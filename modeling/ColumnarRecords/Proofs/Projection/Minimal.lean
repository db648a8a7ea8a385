import Mathlib.Order.CompleteLattice.Finset
import ColumnarRecords.Proofs.Projection.Exact

/-!
# Which columns a plan can do without

A set of columns serves a number if one of them holds its field, or if no column at all does and the
column of all other fields is among them (`StoredFields.Serves`). The columns of a plan serve all
required numbers, and each of them serves one (`Plan.minimal_of_ofNumbers`).

A number may be stored twice, and then both columns are read: what they give is decoded into the
one field after each other. Either of them serves the number, so a plan can do without a column
exactly if another one holds the same number, and its columns are minimal exactly if no required
number is stored twice. Serving goes up from a set of columns to a larger one
(`StoredFields.Serves.mono`), which is why leaving out one column at a time is enough to look at.
-/

namespace ColumnarRecords

open Descriptor

namespace StoredFields

/-- A column holds the field of a number. -/
def HoldsAt (stored : StoredFields) (column number : Nat) : Prop :=
  ∃ id, stored.ids[column]? = some id ∧ id.toInt = number

/-- One of the columns holds the field of a number, or no column does and the last column is one of
them and holds all other fields. -/
def Serves (stored : StoredFields) (columns : Finset Nat) (number : Nat) : Prop :=
  (∃ c ∈ columns, stored.HoldsAt c number) ∨
    ¬stored.Holds number ∧
      ∃ c ∈ columns, c + 1 = stored.columnCount ∧ stored.ids[c]? = some unknownsId

variable {stored : StoredFields} {column n m : Nat} {columns others : Finset Nat}

/-- A number is held if a column holds it. -/
theorem holds_iff_exists_holdsAt : stored.Holds n ↔ ∃ c, stored.HoldsAt c n := by
  constructor
  · rintro ⟨id, hmem, hid⟩
    obtain ⟨c, hget⟩ := List.mem_iff_getElem?.1 hmem
    exact ⟨c, id, hget, hid⟩
  · rintro ⟨c, id, hget, hid⟩
    exact ⟨id, List.mem_of_getElem? hget, hid⟩

/-- A column holds one number only. -/
theorem HoldsAt.number_eq (h : stored.HoldsAt column n) (h' : stored.HoldsAt column m) : n = m := by
  obtain ⟨id, hget, hid⟩ := h
  obtain ⟨id', hget', hid'⟩ := h'
  obtain rfl := Option.some.inj (hget.symm.trans hget')
  omega

/-- A column that holds a number is not the one of all other fields. -/
theorem HoldsAt.getElem?_ne (h : stored.HoldsAt column n) :
    stored.ids[column]? ≠ some unknownsId := by
  obtain ⟨id, hget, hid⟩ := h
  rw [hget]
  rintro heq
  rw [Option.some.inj heq] at hid
  have hvalue : unknownsId.toInt = -1 := rfl
  omega

/-- More columns serve what fewer do. -/
theorem Serves.mono (h : stored.Serves columns n) (hsub : columns ⊆ others) :
    stored.Serves others n := by
  obtain ⟨c, hc, hholds⟩ | ⟨hnone, c, hc, hlast⟩ := h
  · exact .inl ⟨c, hsub hc, hholds⟩
  · exact .inr ⟨hnone, c, hsub hc, hlast⟩

end StoredFields

namespace Plan

open StoredFields

variable {s : Schema} {numbers : List Nat} {stored : StoredFields} {p : Plan} {column : Nat}

/-- The columns serve all required numbers. -/
def ServesAll (s : Schema) (numbers : List Nat) (stored : StoredFields) (columns : Finset Nat) :
    Prop :=
  ∀ n ∈ requiredOf s numbers, stored.Serves columns n

/-- A column that holds a required number is read. -/
theorem mem_columns_of_holdsAt (h : ofNumbers s numbers stored = .ok p) {n : Nat}
    (hn : n ∈ requiredOf s numbers) (hholds : stored.HoldsAt column n) : column ∈ p.columns := by
  obtain ⟨id, hget, hid⟩ := hholds
  exact ((isExact_of_ofNumbers h).mem_columns column).2 (.inl ⟨id, hget, n, hn, hid⟩)

/-- The columns of a plan serve all required numbers. -/
theorem servesAll_columns (h : ofNumbers s numbers stored = .ok p) :
    ServesAll s numbers stored p.columns.toFinset := by
  intro n hn
  by_cases hholds : stored.Holds n
  · obtain ⟨c, hc⟩ := holds_iff_exists_holdsAt.1 hholds
    exact .inl ⟨c, List.mem_toFinset.2 (mem_columns_of_holdsAt h hn hc), hc⟩
  · obtain ⟨last, hlast⟩ :=
      Option.isSome_iff_exists.1 ((isExact_of_ofNumbers h).readsUnknowns.2 ⟨n, hn, hholds⟩)
    have hmem : last ∈ p.columns :=
      List.mem_append_right _ (Option.mem_toList.2 hlast)
    exact .inr ⟨hholds, last, List.mem_toFinset.2 hmem,
      (isExact_of_ofNumbers h).unknownsColumn_last last hlast,
      getElem?_of_unknownsColumn? (unknownsColumn?_of_ofNumbers h hlast)⟩

/-- What a column of a plan is read for: a required number that it holds, or one that no column
holds. -/
theorem holdsAt_or_last (h : ofNumbers s numbers stored = .ok p) (hc : column ∈ p.columns) :
    ∃ n ∈ requiredOf s numbers, stored.HoldsAt column n ∨
      ¬stored.Holds n ∧ column + 1 = stored.columnCount := by
  obtain ⟨id, hget, n, hn, hid⟩ | ⟨hlast, n, hn, hholds⟩ :=
    ((isExact_of_ofNumbers h).mem_columns column).1 hc
  · exact ⟨n, hn, .inl ⟨id, hget, hid⟩⟩
  · exact ⟨n, hn, .inr ⟨hholds, hlast⟩⟩

/-- Each column of a plan serves a required number by itself. -/
theorem exists_serves_singleton (h : ofNumbers s numbers stored = .ok p) (hc : column ∈ p.columns) :
    ∃ n ∈ requiredOf s numbers, stored.Serves {column} n := by
  obtain ⟨n, hn, hholds | ⟨hnone, hlast⟩⟩ := holdsAt_or_last h hc
  · exact ⟨n, hn, .inl ⟨column, Finset.mem_singleton_self column, hholds⟩⟩
  · -- The column of all other fields that serves the number is the last one too.
    obtain ⟨c, -, hholds⟩ | ⟨-, c, -, hcount, hminus⟩ := servesAll_columns h n hn
    · exact absurd (holds_iff_exists_holdsAt.2 ⟨c, hholds⟩) hnone
    · obtain rfl : c = column := by omega
      exact ⟨n, hn, .inr ⟨hnone, c, Finset.mem_singleton_self c, hcount, hminus⟩⟩

/-- A plan can do without a column exactly if it holds a required number that another one holds. -/
theorem servesAll_erase_iff (h : ofNumbers s numbers stored = .ok p) (hc : column ∈ p.columns) :
    ServesAll s numbers stored (p.columns.toFinset.erase column) ↔
      ∃ n ∈ requiredOf s numbers, stored.HoldsAt column n ∧
        ∃ other ≠ column, stored.HoldsAt other n := by
  constructor
  · intro hserves
    obtain ⟨n, hn, hread⟩ := holdsAt_or_last h hc
    obtain ⟨other, hother, hholds⟩ | ⟨hnone, other, hother, hcount, -⟩ := hserves n hn
    · obtain ⟨hne, -⟩ := Finset.mem_erase.1 hother
      obtain hthis | ⟨hnone, -⟩ := hread
      · exact ⟨n, hn, hthis, other, hne, hholds⟩
      · exact absurd (holds_iff_exists_holdsAt.2 ⟨other, hholds⟩) hnone
    · obtain ⟨hne, -⟩ := Finset.mem_erase.1 hother
      obtain hthis | ⟨-, hlast⟩ := hread
      · exact absurd (holds_iff_exists_holdsAt.2 ⟨column, hthis⟩) hnone
      · exact absurd (by omega) hne
  · rintro ⟨n, hn, hthis, other, hne, hother⟩ m hm
    obtain ⟨c, hmem, hholds⟩ | ⟨hnone, c, hmem, hcount, hminus⟩ := servesAll_columns h m hm
    · -- The other column takes the place of the one that is left out.
      by_cases hsame : c = column
      · subst hsame
        obtain rfl := hholds.number_eq hthis
        exact .inl ⟨other, Finset.mem_erase.2
          ⟨hne, List.mem_toFinset.2 (mem_columns_of_holdsAt h hn hother)⟩, hother⟩
      · exact .inl ⟨c, Finset.mem_erase.2 ⟨hsame, hmem⟩, hholds⟩
    · have hsame : c ≠ column := fun heq => hthis.getElem?_ne (heq ▸ hminus)
      exact .inr ⟨hnone, c, Finset.mem_erase.2 ⟨hsame, hmem⟩, hcount, hminus⟩

/-- The columns of a plan serve all required numbers and each of them serves one. The plan can do
without a column exactly if it holds a required number that another one holds, so that the columns
are minimal exactly if no required number is stored twice. -/
theorem minimal_of_ofNumbers (h : ofNumbers s numbers stored = .ok p) :
    ServesAll s numbers stored p.columns.toFinset ∧
      (∀ c ∈ p.columns, ∃ n ∈ requiredOf s numbers, stored.Serves {c} n) ∧
      (∀ c ∈ p.columns, ServesAll s numbers stored (p.columns.toFinset.erase c) ↔
        ∃ n ∈ requiredOf s numbers, stored.HoldsAt c n ∧ ∃ other ≠ c, stored.HoldsAt other n) ∧
      (Minimal (ServesAll s numbers stored) p.columns.toFinset ↔
        ∀ n ∈ requiredOf s numbers, ∀ c other, stored.HoldsAt c n → stored.HoldsAt other n →
          c = other) := by
  refine ⟨servesAll_columns h, fun c => exists_serves_singleton h, fun c => servesAll_erase_iff h,
    ?_⟩
  have hmono : ∀ ⦃columns others : Finset Nat⦄, ServesAll s numbers stored others →
      others ⊆ columns → ServesAll s numbers stored columns :=
    fun _ _ hserves hsub n hn => (hserves n hn).mono hsub
  rw [Finset.minimal_iff_forall_erase hmono, and_iff_right (servesAll_columns h)]
  constructor
  · intro hneeded n hn c other hc hother
    by_contra hne
    have hmem := mem_columns_of_holdsAt h hn hc
    exact hneeded c (List.mem_toFinset.2 hmem)
      ((servesAll_erase_iff h hmem).2 ⟨n, hn, hc, other, Ne.symm hne, hother⟩)
  · intro honce c hc hserves
    obtain ⟨n, hn, hholds, other, hne, hother⟩ :=
      (servesAll_erase_iff h (List.mem_toFinset.1 hc)).1 hserves
    exact hne (honce n hn other c hother hholds)

/-- A plan can do without one of the two columns of the map, but neither without both nor without
the column of all other fields, in which the text is. -/
theorem servesAll_erase_repeated :
    ∃ p, ofNumbers Sample.regular [1, 3] ⟨[3, 2, 3, -1]⟩ = .ok p ∧ p.columns = [0, 2, 3] ∧
      ServesAll Sample.regular [1, 3] ⟨[3, 2, 3, -1]⟩ {2, 3} ∧
      ¬ServesAll Sample.regular [1, 3] ⟨[3, 2, 3, -1]⟩ {0, 2} ∧
      ¬Minimal (ServesAll Sample.regular [1, 3] ⟨[3, 2, 3, -1]⟩) p.columns.toFinset := by
  obtain ⟨p, hplan, hcolumns⟩ : ∃ p, ofNumbers Sample.regular [1, 3] ⟨[3, 2, 3, -1]⟩ = .ok p ∧
      p.columns = [0, 2, 3] := ⟨_, rfl, rfl⟩
  obtain ⟨-, -, herase, hminimal⟩ := minimal_of_ofNumbers hplan
  have hmap : 3 ∈ requiredOf Sample.regular [1, 3] := by decide
  have hfirst : HoldsAt ⟨[3, 2, 3, -1]⟩ 0 3 := ⟨3, rfl, rfl⟩
  have hsecond : HoldsAt ⟨[3, 2, 3, -1]⟩ 2 3 := ⟨3, rfl, rfl⟩
  rw [hcolumns] at herase
  refine ⟨p, hplan, hcolumns, ?_, ?_, ?_⟩
  · exact (herase 0 (by decide)).2 ⟨3, hmap, hfirst, 2, by decide, hsecond⟩
  · intro hserves
    obtain ⟨n, -, ⟨id, hget, hid⟩, -⟩ := (herase 3 (by decide)).1 hserves
    obtain rfl := Option.some.inj hget
    have hvalue : (-1 : Int32).toInt = -1 := rfl
    omega
  · intro h
    exact absurd (hminimal.1 h 3 hmap 0 2 hfirst hsecond) (by decide)

/-- A number that is stored twice is read from two columns, either of which serves it. -/
theorem not_minimal_repeated :
    ∃ p, ofNumbers Sample.regular [3] ⟨[3, 3]⟩ = .ok p ∧ p.columns = [0, 1] ∧
      {1} ⊂ p.columns.toFinset ∧ ServesAll Sample.regular [3] ⟨[3, 3]⟩ {1} := by
  refine ⟨_, rfl, rfl, by decide, fun n hn => ?_⟩
  obtain rfl := List.mem_singleton.1 (show n ∈ [3] from hn)
  exact .inl ⟨1, Finset.mem_singleton_self 1, 3, rfl, rfl⟩

end Plan

end ColumnarRecords
