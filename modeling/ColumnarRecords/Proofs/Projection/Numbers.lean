import Mathlib.Order.Interval.Finset.Nat
import ColumnarRecords.Proofs.Projection.Directive

/-!
# The numbers of the selected fields

Indices are resolved to the numbers of the fields at them, each once and in the order in which they
are first named (`Selection.Resolves`), unless one of them is beyond the fields; then the first such
index is reported. Numbers that come twice are left out by the number, where a caller means the
index; as no two fields of a schema have the same number, that is the same. One more index changes
the numbers by one step (`Selection.Resolves.concat`), and `Selection.resolve_exact` follows by
induction on the indices.
-/

namespace ColumnarRecords

open Descriptor

/-! ## Keeping the first of each -/

/-- One more member is kept if it is new. -/
theorem eraseDups_concat {α : Type} [BEq α] [LawfulBEq α] (l : List α) (a : α) :
    (l ++ [a]).eraseDups = if a ∈ l.eraseDups then l.eraseDups else l.eraseDups ++ [a] := by
  rw [List.eraseDups_append]
  by_cases ha : a ∈ l
  · have hnone : [a].removeAll l = [] := by simp [List.removeAll, ha]
    rw [hnone, if_pos (List.mem_eraseDups.2 ha)]
    exact List.append_nil _
  · have hone : [a].removeAll l = [a] := by simp [List.removeAll, ha]
    rw [hone, if_neg fun h => ha (List.mem_eraseDups.1 h)]
    rfl

/-- A list without repetitions is kept as it is. -/
theorem eraseDups_eq_self {α : Type} [BEq α] [LawfulBEq α] {l : List α} (h : l.Nodup) :
    l.eraseDups = l := by
  induction l using List.reverseRecOn with
  | nil => rfl
  | append_singleton l a ih =>
    obtain ⟨hl, -, hdisjoint⟩ := List.nodup_append.1 h
    rw [eraseDups_concat, ih hl, if_neg]
    exact fun ha => hdisjoint a ha a (List.mem_singleton_self a) rfl

/-! ## Numbers at indices -/

namespace Schema

/-- The field at an index has a number. -/
def NumberAt (s : Schema) (index : UInt64) (n : Nat) : Prop :=
  ∃ f, s.field? index.toNat = some f ∧ f.number = n

variable {s : Schema} {i j : UInt64} {n : Nat}

/-- There is a number at each index that is not beyond the fields. -/
theorem exists_numberAt_iff : (∃ n, s.NumberAt i n) ↔ i.toNat < s.fieldCount := by
  constructor
  · rintro ⟨n, f, hf, -⟩
    exact (List.getElem?_eq_some_iff.1 hf).1
  · intro hlt
    exact ⟨_, _, List.getElem?_eq_getElem hlt, rfl⟩

/-- Different indices have different numbers. -/
theorem NumberAt.index_eq (hi : s.NumberAt i n) (hj : s.NumberAt j n) : i = j := by
  obtain ⟨f, hf, rfl⟩ := hi
  obtain ⟨g, hg, hnumber⟩ := hj
  obtain ⟨hilt, rfl⟩ := List.getElem?_eq_some_iff.1 hf
  obtain ⟨hjlt, rfl⟩ := List.getElem?_eq_some_iff.1 hg
  have hascending := List.pairwise_iff_getElem.1 s.type.fields.ascending
  obtain hlt | heq | hlt := Nat.lt_trichotomy i.toNat j.toNat
  · exact absurd hnumber (hascending _ _ hilt hjlt hlt).ne'
  · exact UInt64.toNat.inj heq
  · exact absurd hnumber (hascending _ _ hjlt hilt hlt).ne

/-- The numbers of the fields are different from each other. -/
theorem nodup_numbers (s : Schema) : (s.fields.map (·.number)).Nodup :=
  (List.pairwise_map.2 s.type.fields.ascending).imp Nat.ne_of_lt

/-- There are no more fields than numbers that fields can have. -/
theorem fieldCount_le (s : Schema) : s.fieldCount ≤ maxFieldNumber := by
  have hsubset : (s.fields.map (·.number)).toFinset ⊆ Finset.Icc 1 maxFieldNumber := by
    intro n hn
    obtain ⟨f, hf, rfl⟩ := List.mem_map.1 (List.mem_toFinset.1 hn)
    exact Finset.mem_Icc.2 (s.type.fields.number_mem f hf)
  have hcard := Finset.card_le_card hsubset
  rw [List.toFinset_card_of_nodup s.nodup_numbers, List.length_map, Nat.card_Icc] at hcard
  exact hcard

end Schema

namespace Selection

open Schema

/-- The number at an index is found. -/
theorem numberAt_eq_ok_iff {s : Schema} {index : UInt64} {n : Nat} :
    numberAt s index = .ok n ↔ s.NumberAt index n := by
  unfold numberAt NumberAt
  cases s.field? index.toNat <;> simp

/-- An index beyond the fields is reported. -/
theorem numberAt_eq_error_iff {s : Schema} {index : UInt64} {e : ReadError} :
    numberAt s index = .error e ↔
      s.fieldCount ≤ index.toNat ∧
        e = .indexOutOfRange index.toNat s.fieldCount s.fullName := by
  have hbeyond : s.field? index.toNat = none ↔ s.fieldCount ≤ index.toNat :=
    List.getElem?_eq_none_iff
  rw [← hbeyond]
  unfold numberAt
  cases s.field? index.toNat <;> simp [eq_comm]

/-! ## One index after another -/

/-- The numbers of the fields at indices, each once, in the order in which the indices first come. -/
structure Resolves (s : Schema) (indices : List UInt64) (numbers : List Nat) : Prop where
  /-- No number comes twice. -/
  nodup : numbers.Nodup
  /-- They are the numbers of the fields at the indices. -/
  mem_iff : ∀ n, n ∈ numbers ↔ ∃ index ∈ indices, s.NumberAt index n
  /-- What comes earlier has an index that first comes earlier. -/
  order : numbers.Pairwise fun m n =>
    ∀ i j, s.NumberAt i m → s.NumberAt j n → indices.idxOf i < indices.idxOf j
  /-- There are as many numbers as different indices. -/
  length_eq : numbers.length = indices.toFinset.card

namespace Resolves

variable {s : Schema} {indices : List UInt64} {numbers numbers' : List Nat} {index : UInt64}
  {n : Nat}

/-- No index has no number. -/
theorem nil (s : Schema) : Resolves s [] [] :=
  ⟨List.nodup_nil, by simp, .nil, rfl⟩

/-- An index has its number among those of the indices exactly if it is one of these. -/
theorem mem_numbers_iff (h : Resolves s indices numbers) (hn : s.NumberAt index n) :
    n ∈ numbers ↔ index ∈ indices := by
  rw [h.mem_iff]
  constructor
  · rintro ⟨other, hother, hnumber⟩
    exact hn.index_eq hnumber ▸ hother
  · exact fun hindex => ⟨index, hindex, hn⟩

/-- The order of the numbers is that of the indices after one more index. -/
theorem order_concat (h : Resolves s indices numbers) (index : UInt64) :
    numbers.Pairwise fun m n => ∀ i j, s.NumberAt i m → s.NumberAt j n →
      (indices ++ [index]).idxOf i < (indices ++ [index]).idxOf j := by
  refine h.order.imp_of_mem fun {m n} hm hn hlt i j hi hj => ?_
  rw [List.idxOf_append, List.idxOf_append, if_pos ((h.mem_numbers_iff hi).1 hm),
    if_pos ((h.mem_numbers_iff hj).1 hn)]
  exact hlt i j hi hj

/-- One more index adds its number, unless that is there already. -/
theorem concat (h : Resolves s indices numbers) (hn : s.NumberAt index n) :
    Resolves s (indices ++ [index]) (if n ∈ numbers then numbers else numbers ++ [n]) := by
  have hnumber : ∀ m, s.NumberAt index m ↔ m = n := by
    intro m
    constructor
    · rintro ⟨f, hf, rfl⟩
      obtain ⟨g, hg, rfl⟩ := hn
      rw [Option.some.inj (hf.symm.trans hg)]
    · rintro rfl
      exact hn
  have hmem : ∀ m, m ∈ numbers ∨ m = n ↔ ∃ i ∈ indices ++ [index], s.NumberAt i m := by
    intro m
    simp only [List.mem_append, List.mem_singleton, or_and_right, exists_or, exists_eq_left,
      hnumber, ← h.mem_iff]
  split_ifs with hold
  · -- The index has come before, so nothing changes.
    have hindex := (h.mem_numbers_iff hn).1 hold
    refine ⟨h.nodup, fun m => ?_, h.order_concat index, ?_⟩
    · rw [← hmem]
      exact ⟨.inl, fun hm => hm.elim id fun heq => heq ▸ hold⟩
    · rw [List.toFinset_append, Finset.union_eq_left.2 (by simpa using hindex)]
      exact h.length_eq
  · have hindex : index ∉ indices := fun hindex => hold ((h.mem_numbers_iff hn).2 hindex)
    refine ⟨?_, fun m => ?_, ?_, ?_⟩
    · exact List.nodup_append.2 ⟨h.nodup, List.nodup_singleton n, by
        rintro m hm _ hlast rfl
        exact hold (List.mem_singleton.1 hlast ▸ hm)⟩
    · rw [← hmem, List.mem_append, List.mem_singleton]
    · refine List.pairwise_append.2 ⟨h.order_concat index, List.pairwise_singleton _ _, ?_⟩
      intro m hm last hlast i j hi hj
      obtain rfl := List.mem_singleton.1 hlast
      obtain rfl := hj.index_eq hn
      have hi := (h.mem_numbers_iff hi).1 hm
      -- The new index comes after all others.
      rw [List.idxOf_append, List.idxOf_append, if_pos hi, if_neg hindex]
      exact Nat.lt_add_left _ (List.idxOf_lt_length_iff.2 hi)
    · rw [List.length_append, List.length_singleton, h.length_eq, List.toFinset_append,
        Finset.card_union_of_disjoint (by simpa using hindex)]
      rfl

/-- There is one way only to list the numbers. -/
theorem unique (h : Resolves s indices numbers) (h' : Resolves s indices numbers') :
    numbers = numbers' := by
  have hperm : numbers.Perm numbers' :=
    (List.perm_ext_iff_of_nodup h.nodup h'.nodup).2 fun n =>
      (h.mem_iff n).trans (h'.mem_iff n).symm
  refine List.Perm.eq_of_pairwise (fun m n hm hn hmn hnm => ?_) h.order h'.order hperm
  obtain ⟨i, -, hi⟩ := (h.mem_iff m).1 hm
  obtain ⟨j, -, hj⟩ := (h'.mem_iff n).1 hn
  exact absurd (hmn i j hi hj) (hnm j i hj hi).asymm

end Resolves

/-- What is found at indices, each number once, is what they resolve to. -/
theorem resolves_of_mapM {s : Schema} {indices : List UInt64} {numbers : List Nat}
    (h : indices.mapM (numberAt s) = .ok numbers) : Resolves s indices numbers.eraseDups := by
  induction indices using List.reverseRecOn generalizing numbers with
  | nil =>
    obtain rfl := Except.ok.inj h
    exact Resolves.nil s
  | append_singleton indices index ih =>
    rw [List.mapM_append] at h
    obtain ⟨before, hbefore, h⟩ := bind_eq_ok.1 h
    obtain ⟨last, hlast, h⟩ := bind_eq_ok.1 h
    obtain rfl := Except.ok.inj h
    obtain ⟨n, _, hn, hnil, rfl⟩ := List.forall₂_cons_left_iff.1 (mapM_eq_ok_iff.1 hlast)
    obtain rfl := List.forall₂_nil_left_iff.1 hnil
    rw [eraseDups_concat]
    exact (ih hbefore).concat (numberAt_eq_ok_iff.1 hn)

/-- The first index beyond the fields is reported. -/
theorem mapM_numberAt_eq_error_iff {s : Schema} {indices : List UInt64} {e : ReadError} :
    indices.mapM (numberAt s) = .error e ↔
      ∃ before index after, indices = before ++ index :: after ∧
        (∀ other ∈ before, other.toNat < s.fieldCount) ∧ s.fieldCount ≤ index.toNat ∧
        e = .indexOutOfRange index.toNat s.fieldCount s.fullName := by
  simp only [mapM_eq_error_iff, numberAt_eq_ok_iff, numberAt_eq_error_iff, exists_numberAt_iff]

/-- Indices resolve to numbers exactly if none of them is beyond the fields. -/
theorem resolve_eq_ok_iff {s : Schema} {indices : List UInt64} {numbers : List Nat} :
    resolve s (.indices indices) = .ok numbers ↔
      (∀ index ∈ indices, index.toNat < s.fieldCount) ∧ Resolves s indices numbers := by
  rw [resolve, map_eq_ok]
  constructor
  · rintro ⟨found, hfound, rfl⟩
    have hrange := (mapM_eq_ok_iff.1 hfound).imp fun index n hn =>
      (⟨exists_numberAt_iff.1 ⟨n, numberAt_eq_ok_iff.1 hn⟩, hn⟩ :
        index.toNat < s.fieldCount ∧ numberAt s index = .ok n)
    exact ⟨((List.forall₂_and_left _ _).1 hrange).1, resolves_of_mapM hfound⟩
  · rintro ⟨hrange, h⟩
    cases hfound : indices.mapM (numberAt s) with
    | ok found => exact ⟨found, rfl, (resolves_of_mapM hfound).unique h⟩
    | error e =>
      obtain ⟨before, index, after, rfl, -, hbeyond, -⟩ := mapM_numberAt_eq_error_iff.1 hfound
      exact absurd (hrange index (by simp)) (Nat.not_lt.2 hbeyond)

/-- The indices of all fields. -/
def allIndices (s : Schema) : List UInt64 :=
  (List.range s.fieldCount).map UInt64.ofNat

/-- The indices of all fields are the numbers below their count. -/
theorem map_toNat_allIndices (s : Schema) :
    (allIndices s).map UInt64.toNat = List.range s.fieldCount := by
  rw [allIndices, List.map_map]
  refine (List.map_congr_left fun i hi => ?_).trans (List.map_id _)
  have hlt := List.mem_range.1 hi
  have hcount := s.fieldCount_le
  have hmax : maxFieldNumber = 2 ^ 29 - 1 := rfl
  exact UInt64.toNat_ofNat_of_lt' (by rw [UInt64.size]; omega)

/-- The indices of all fields resolve to the numbers of all fields. -/
theorem resolve_allIndices (s : Schema) :
    resolve s (.indices (allIndices s)) = .ok (s.fields.map (·.number)) := by
  have hlength : (allIndices s).length = (s.fields.map (·.number)).length := by
    simp [allIndices, fieldCount]
  have hfound : (allIndices s).mapM (numberAt s) = .ok (s.fields.map (·.number)) := by
    refine mapM_eq_ok_iff.2 (List.forall₂_iff_get.2 ⟨hlength, fun i hi hi' => ?_⟩)
    have hindex : ((allIndices s)[i]).toNat = i := by
      have hget := List.getElem_map UInt64.toNat (h := by simpa using hi) (l := allIndices s)
      rw [← hget]
      simp only [map_toNat_allIndices, List.getElem_range]
    have hlt : i < s.fields.length := by simpa using hi'
    refine numberAt_eq_ok_iff.2 ⟨s.fields[i], ?_, by simp⟩
    rw [List.get_eq_getElem, hindex]
    exact List.getElem?_eq_getElem hlt
  rw [resolve, hfound, Except.map, eraseDups_eq_self s.nodup_numbers]

/-- What indices resolve to, and when they do not: the first index that is beyond the fields is
reported; if there is none, the result is the numbers at the indices, each once, in the order in
which the indices first come. The selection of all fields is the one of all indices. -/
theorem resolve_exact (s : Schema) (indices : List UInt64) :
    (∀ e, resolve s (.indices indices) = .error e ↔
      ∃ before index after, indices = before ++ index :: after ∧
        (∀ other ∈ before, other.toNat < s.fieldCount) ∧ s.fieldCount ≤ index.toNat ∧
        e = .indexOutOfRange index.toNat s.fieldCount s.fullName) ∧
      (∀ numbers, resolve s (.indices indices) = .ok numbers ↔
        (∀ index ∈ indices, index.toNat < s.fieldCount) ∧ Resolves s indices numbers) ∧
      ∃ all numbers, all.map UInt64.toNat = List.range s.fieldCount ∧
        resolve s .all = .ok numbers ∧ resolve s (.indices all) = .ok numbers := by
  refine ⟨fun e => ?_, fun numbers => resolve_eq_ok_iff, ?_⟩
  · rw [resolve, map_eq_error, mapM_numberAt_eq_error_iff]
  · exact ⟨allIndices s, s.fields.map (·.number), map_toNat_allIndices s, rfl,
      resolve_allIndices s⟩

end Selection

end ColumnarRecords
