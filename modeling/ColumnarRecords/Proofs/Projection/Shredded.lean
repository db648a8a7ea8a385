import ColumnarRecords.Column.Shred
import ColumnarRecords.Projection.Materialize
import ColumnarRecords.Proofs.Column.RoundTrip
import ColumnarRecords.Proofs.Projection.Retagged

/-!
# Shredded records are read back

A message that was split into columns is built again along a plan, but for the fields that the plan
does not read and for what does not count as set (`Plan.materialize_shred`). Each known column
assigns its field if it is set (`Plan.addKnown_shred`), and the column of all other fields is merged
into what the known columns have given (`Plan.addUnknowns_shred`); the fields so assigned are those
of the message that the plan reads, each once.
-/

namespace ColumnarRecords

open Descriptor Wire Message

/-- A message with the fields of some numbers only. -/
def Message.restrict (keep : Nat → Bool) (m : Message) : Message :=
  ⟨m.entries.filter fun x => keep x.1⟩

/-- A plan reads the field of a number: the field was asked for if it has a column of its own, and
the column of all other fields is read if it has none. -/
def Plan.keeps (p : Plan) (stored : StoredFields) (numbers : List Nat) (number : Nat) : Bool :=
  if stored.contains number then numbers.contains number else p.unknownsColumn.isSome

/-- The numbers with a column of their own. -/
theorem StoredFields.mem_numbers (stored : StoredFields) (number : Nat) :
    number ∈ stored.numbers ↔ stored.contains number = true := by
  rw [stored.contains_iff, numbers, List.mem_map, Holds]
  constructor
  · rintro ⟨id, hid, rfl⟩
    obtain ⟨hmem, hpositive⟩ := List.mem_filter.1 hid
    have hnonneg : 0 ≤ id.toInt := by simpa using hpositive
    exact ⟨id, hmem, by omega⟩
  · rintro ⟨id, hmem, hid⟩
    refine ⟨id, List.mem_filter.2 ⟨hmem, ?_⟩, by omega⟩
    simp only [decide_eq_true_eq]
    omega

/-- The entry of a field's column is not that of the column of all other fields. -/
theorem StoredFields.ne_unknownsId {id : Int32} {number : Nat} (h : id.toInt = number) :
    id ≠ unknownsId := by
  rintro rfl
  rw [show unknownsId.toInt = -1 from rfl] at h
  omega

/-- Entries that are read the same from a column and in their place are pairs. -/
theorem Descriptor.MessageType.IsEntry.isPair {p : Pool} {t : MessageType} (h : t.IsEntry p)
    (form : EntryForm) : t.IsPair form p where
  single f hf := (h.key f hf).1
  oneof := h.oneof
  key _ f hf _ := (h.key f hf).2

/-- The entries of the maps that are asked for and have a column of their own are pairs. -/
def StoredFields.Regular (stored : StoredFields) (form : EntryForm) (s : Schema)
    (numbers : List Nat) : Prop :=
  ∀ f ∈ s.fields, stored.contains f.number = true → f.number ∈ numbers →
    ∀ entry, f.arity = .map entry → (s.pool.message entry).IsPair form s.pool

namespace Message

variable {form : EntryForm} {p : Pool} {allowed : Field → Value → Prop}
  {N : Nat → Message → Prop} {index : Nat} {m : Message}

/-- What is nested in a message that can be decoded is nested one level less deep. -/
theorem IsOf.conforms (h : m.IsOf p allowed nestingLimit index) :
    m.Conforms p allowed (IsOf p allowed 99) index := h

/-- The value of a field is that of its entry. -/
theorem Conforms.value?_eq_some_iff (h : m.Conforms p allowed N index) {number : Nat} {v : Value} :
    m.value? number = some v ↔ (number, .value v) ∈ m.entries := by
  rw [← Ascending.find?_eq_some_iff h.ascending, value?]
  constructor
  · intro hvalue
    split at hvalue
    · rename_i u hfind
      rw [hfind, Option.some.inj hvalue]
    · cases hvalue
  · intro hfind
    rw [hfind]

/-- The field of a message if it is set, with its value trimmed. -/
def setField (form : EntryForm) (p : Pool) (f : Field) (m : Message) : Option (Field × Value) :=
  (m.value? f.number).bind fun v => if f.isSet v then some (f, v.trim form p f.kind) else none

/-- A field is set as itself. -/
theorem fst_of_setField {f : Field} {x : Field × Value} (h : m.setField form p f = some x) :
    x.1 = f := by
  obtain ⟨v, -, hx⟩ := Option.bind_eq_some_iff.1 h
  split at hx
  · obtain rfl := Option.some.inj hx
    rfl
  · cases hx

/-- A field is set just if it is one of those that are. -/
theorem Conforms.setField_eq_some_iff (h : m.Conforms p allowed N index) {f : Field}
    (hfind : (p.message index).fields.find? f.number = some f) {x : Field × Value} :
    m.setField form p f = some x ↔ x.1 = f ∧ x ∈ m.setFields form p index := by
  rw [setField, Option.bind_eq_some_iff, h.mem_setFields]
  constructor
  · rintro ⟨v, hvalue, hx⟩
    split at hx
    · rename_i hset
      obtain rfl := Option.some.inj hx
      exact ⟨rfl, hfind, v, h.value?_eq_some_iff.1 hvalue, hset, rfl⟩
    · cases hx
  · rintro ⟨rfl, -, v, hentry, hset, hvalue⟩
    refine ⟨v, h.value?_eq_some_iff.2 hentry, ?_⟩
    rw [if_pos hset, hvalue]

/-- What is set of a restricted message is what is set of the message and kept. -/
theorem Conforms.mem_setFields_restrict (h : m.Conforms p allowed N index) {keep : Nat → Bool}
    {x : Field × Value} :
    x ∈ (m.restrict keep).setFields form p index ↔
      x ∈ m.setFields form p index ∧ keep x.1.number = true := by
  have hrestrict : (m.restrict keep).Conforms p allowed N index := h.of_sublist List.filter_sublist
  have hentry : ∀ {n : Nat} {e : Entry}, (n, e) ∈ (m.restrict keep).entries ↔
      (n, e) ∈ m.entries ∧ keep n = true := List.mem_filter
  rw [hrestrict.mem_setFields, h.mem_setFields]
  constructor
  · rintro ⟨hfind, v, hmem, hset⟩
    exact ⟨⟨hfind, v, (hentry.1 hmem).1, hset⟩, (hentry.1 hmem).2⟩
  · rintro ⟨⟨hfind, v, hmem, hset⟩, hkeep⟩
    exact ⟨hfind, v, hentry.2 ⟨hmem, hkeep⟩, hset⟩

/-- What is left of a message without the numbers that have a column is what has none. -/
theorem eraseAll_numbers (stored : StoredFields) (m : Message) :
    m.eraseAll stored.numbers = m.restrict fun n => !stored.contains n := by
  refine Message.ext ?_
  rw [entries_eraseAll]
  refine List.filter_congr fun x _ => ?_
  rw [Bool.eq_iff_iff, decide_eq_true_eq, stored.mem_numbers]
  simp

end Message

namespace Plan

/-- A field with a known column has a column. -/
theorem contains_of_mem_knownOf {s : Schema} {numbers : List Nat} {stored : StoredFields}
    {known : Nat × Field} (h : known ∈ knownOf s numbers stored) :
    stored.contains known.2.number = true := by
  obtain ⟨-, -, id, hget, hid⟩ := mem_knownOf.1 h
  have hholds : stored.Holds known.2.number := ⟨id, List.mem_of_getElem? hget, hid⟩
  exact (stored.contains_iff _).2 hholds

/-- The fields that the known columns of a plan assign. -/
def knownSet (p : Plan) (form : EntryForm) (m : Message) : List (Field × Value) :=
  p.known.filterMap fun known => m.setField form p.schema.pool known.2

/-- The fields that the column of all other fields assigns, if it is read. -/
def unknownSet (p : Plan) (form : EntryForm) (stored : StoredFields) (m : Message) :
    List (Field × Value) :=
  p.unknownsColumn.toList.flatMap fun _ =>
    (m.restrict fun n => !stored.contains n).setFields form p.schema.pool p.schema.index

section Shred

variable {form : EntryForm} {s : Schema} (hsound : s.pool.Sound) {stored : StoredFields}
  {numbers : List Nat} {p : Plan} (hp : ofNumbers s numbers stored = .ok p) {m : Message}
  (hm : m.IsOf s.pool Field.HoldsSome nestingLimit s.index)
  (hlen : ∀ column ∈ (stored.shred form s m).columns, column.length < 2 ^ 64)
include hsound hp hm hlen

omit hsound hp hm hlen in
/-- What a record of a message holds in a column. -/
theorem bytesOf_shred {column : Nat} {id : Int32} (hid : stored.ids[column]? = some id) :
    bytesOf (stored.shred form s m) column = .ok (stored.shredColumn form s m id) := by
  rw [bytesOf, Record.column?, StoredFields.shred, List.getElem?_map, hid]
  rfl

omit hsound hm hlen in
/-- What the record of a message holds in a known column is the field written without its key. -/
theorem column?_shred {column : Nat} {f : Field} (hknown : (column, f) ∈ p.known) :
    (stored.shred form s m).column? column = some (m.bareField form s.pool f) := by
  obtain ⟨rfl, hknowns, -, -⟩ := known_of_ofNumbers hp
  rw [hknowns] at hknown
  obtain ⟨-, hfind, id, hget, hid⟩ := mem_knownOf.1 hknown
  have hfield : p.schema.fieldOfNumber? f.number = some f := hfind
  have hbytes : stored.shredColumn form p.schema m id = m.bareField form p.schema.pool f := by
    rw [StoredFields.shredColumn, if_neg (StoredFields.ne_unknownsId hid), hid]
    simp only [Int.toNat_natCast, hfield]
  rw [Record.column?, StoredFields.shred, List.getElem?_map, hget, ← hbytes]
  rfl

/-- A known column assigns its field if it is set. -/
theorem addKnown_shred {known : Nat × Field} (hknown : known ∈ p.known)
    (hclosed : known.2.isClosed = false)
    (hpair : ∀ entry, known.2.arity = .map entry → (s.pool.message entry).IsPair form s.pool)
    {m' : Message} (hfresh : m'.find? known.2.number = none) :
    p.addKnown (stored.shred form s m) m' known =
      .ok (m'.assignAll s.type (m.setField form s.pool known.2).toList) := by
  have hbytes : (stored.shred form s m).column? known.1 = some (m.bareField form s.pool known.2) :=
    column?_shred hp hknown
  obtain ⟨rfl, hknowns, -, -⟩ := known_of_ofNumbers hp
  rw [hknowns] at hknown
  obtain ⟨-, hfind, -⟩ := mem_knownOf.1 hknown
  have hconforms := hm.conforms
  have hshort := hlen _ (List.mem_of_getElem? hbytes)
  rw [addKnown, bytesOf, hbytes]
  simp only
  unfold bareField at hshort ⊢
  unfold setField
  cases hvalue : m.value? known.2.number with
  | none => rfl
  | some v =>
    rw [hvalue] at hshort
    simp only at hshort
    cases hset : known.2.isSet v with
    | false => simp [hset, assignAll]
    | true =>
      rw [hset, if_pos rfl] at hshort
      -- Only a field that is set has a column with bytes, and these decode to its value.
      have hentry := hconforms.value?_eq_some_iff.1 hvalue
      obtain ⟨f, u, hfindu, hnumber, hvalueu, haccepts, hsome⟩ := hconforms.exists_field hentry
      obtain rfl : known.2 = f := by
        rw [← hnumber] at hfindu
        exact Option.some.inj (hfind.symm.trans hfindu)
      obtain rfl := Entry.value.inj hvalueu
      obtain ⟨hne, hdecode⟩ := Column.decodeField_encodeBare hsound hfind hclosed hfresh
        hpair haccepts hset hsome hshort
      have hcolumn : Column.decodeField p.schema.pool p.schema.type known.2
          (known.2.encodeBare (v.bodies form p.schema.pool known.2.kind)) m' =
          .ok (m'.assign p.schema.type known.2 (v.trim form p.schema.pool known.2.kind)) := hdecode
      simp only [hset, if_true, Option.bind_some]
      rw [if_neg hne]
      simp only [hcolumn]
      rfl

/-- The known columns assign those of their fields that are set. -/
theorem foldlM_addKnown_shred {knowns : List (Nat × Field)}
    (hsub : ∀ known ∈ knowns, known ∈ p.known)
    (hclosed : ∀ known ∈ knowns, known.2.isClosed = false)
    (hpair : ∀ known ∈ knowns, ∀ entry, known.2.arity = .map entry →
      (s.pool.message entry).IsPair form s.pool)
    (hdistinct : knowns.Pairwise fun a b => a.2.number ≠ b.2.number) {m' : Message}
    (hfresh : ∀ known ∈ knowns, m'.find? known.2.number = none) :
    knowns.foldlM (p.addKnown (stored.shred form s m)) m' =
      .ok (m'.assignAll s.type (knowns.filterMap fun known => m.setField form s.pool known.2)) := by
  induction knowns generalizing m' with
  | nil => rfl
  | cons known others ih =>
    obtain ⟨hhead, htail⟩ := List.pairwise_cons.1 hdistinct
    have hmem : ∀ {other}, other ∈ others → other ∈ known :: others := List.mem_cons_of_mem known
    have hone := addKnown_shred hsound hp hm hlen (hsub known List.mem_cons_self)
      (hclosed known List.mem_cons_self) (hpair known List.mem_cons_self)
      (hfresh known List.mem_cons_self)
    -- The first column assigns its own field at most, so the others' fields are still not there.
    have hstill : ∀ other ∈ others,
        (m'.assignAll s.type (m.setField form s.pool known.2).toList).find? other.2.number = none := by
      intro other h
      have hnone := hfresh other (hmem h)
      cases hset : m.setField form s.pool known.2 with
      | none => exact hnone
      | some x =>
        refine find?_assign_eq_none hnone ?_ x.2
        rw [fst_of_setField hset]
        exact (hhead other h).symm
    have hrest := ih (fun other h => hsub other (hmem h)) (fun other h => hclosed other (hmem h))
      (fun other h => hpair other (hmem h)) htail hstill
    rw [List.foldlM_cons, hone]
    refine Eq.trans hrest ?_
    rw [List.filterMap_cons]
    cases m.setField form s.pool known.2 <;> rfl

/-- The column of all other fields assigns those of them that are set, to a message without them. -/
theorem addUnknowns_shred {column : Nat} (hcolumn : p.unknownsColumn = some column) {m' : Message}
    (hfresh : ∀ n, stored.contains n = false → m'.find? n = none) :
    p.addUnknowns (stored.shred form s m) m' column =
      .ok (m'.assignAll s.type
        ((m.restrict fun n => !stored.contains n).setFields form s.pool s.index)) := by
  obtain ⟨rfl, -, -, hunknowns⟩ := known_of_ofNumbers hp
  have hget := StoredFields.getElem?_of_unknownsColumn? (hunknowns column hcolumn)
  have hbytes : stored.shredColumn form p.schema m StoredFields.unknownsId =
      (m.restrict fun n => !stored.contains n).encode form p.schema.pool p.schema.index := by
    rw [StoredFields.shredColumn, if_pos rfl, eraseAll_numbers]
  -- The column holds the fields without one of their own, written with their keys.
  have hconforms : (m.restrict fun n => !stored.contains n).Conforms p.schema.pool
      Field.HoldsSome (IsOf p.schema.pool Field.HoldsSome 99) p.schema.index :=
    hm.conforms.of_sublist List.filter_sublist
  have hshort : ((m.restrict fun n => !stored.contains n).encode form p.schema.pool
      p.schema.index).length < 2 ^ 64 := by
    rw [← hbytes]
    exact hlen _ (List.mem_map_of_mem (List.mem_of_getElem? hget))
  have hrest : ∀ x ∈ (m.restrict fun n => !stored.contains n).entries, m'.find? x.1 = none := by
    intro x hx
    have hnot : stored.contains x.1 = false := by simpa using (List.mem_filter.1 hx).2
    exact hfresh x.1 hnot
  have hrun := run_message hsound (nestedLocal_readField p.schema.pool 99)
    (readsBack_readField hsound 99) nestingLimit hconforms hshort hrest
  rw [addUnknowns, bytesOf_shred hget, hbytes]
  simp only [merge_eq_map]
  have hmerge := mergeFields_of_run hrun
  rw [hmerge]
  rfl

omit hsound hlen in
/-- The known columns hold the fields that were asked for and have a column. -/
theorem mem_knownSet {x : Field × Value} :
    x ∈ p.knownSet form m ↔
      x ∈ m.setFields form s.pool s.index ∧ stored.contains x.1.number = true ∧
        x.1.number ∈ numbers := by
  obtain ⟨rfl, hknowns, -, -⟩ := known_of_ofNumbers hp
  have hconforms := hm.conforms
  rw [knownSet, List.mem_filterMap, hknowns]
  constructor
  · rintro ⟨⟨column, f⟩, hmem, hset⟩
    obtain ⟨hrequired, hfind, -⟩ := mem_knownOf.1 hmem
    obtain ⟨rfl, hx⟩ := (hconforms.setField_eq_some_iff hfind).1 hset
    exact ⟨hx, contains_of_mem_knownOf hmem, (mem_requiredOf.1 hrequired).1⟩
  · rintro ⟨hx, hcontains, hnumber⟩
    have hfind := (hconforms.mem_setFields.1 hx).1
    obtain ⟨id, hid, hidnumber⟩ := (stored.contains_iff _).1 hcontains
    obtain ⟨column, hget⟩ := List.mem_iff_getElem?.1 hid
    have hrequired : x.1.number ∈ requiredOf p.schema numbers :=
      mem_requiredOf.2 ⟨hnumber, x.1, hfind⟩
    refine ⟨(column, x.1), mem_knownOf.2 ⟨hrequired, hfind, id, hget, hidnumber⟩, ?_⟩
    exact (hconforms.setField_eq_some_iff hfind).2 ⟨rfl, hx⟩

omit hsound hlen in
/-- The column of all other fields holds the fields that have no column, if it is read. -/
theorem mem_unknownSet {x : Field × Value} :
    x ∈ p.unknownSet form stored m ↔
      x ∈ m.setFields form s.pool s.index ∧ stored.contains x.1.number = false ∧
        p.unknownsColumn.isSome = true := by
  obtain ⟨rfl, -, -, -⟩ := known_of_ofNumbers hp
  have hconforms := hm.conforms
  unfold unknownSet
  cases p.unknownsColumn with
  | none => simp
  | some column =>
    rw [Option.toList_some, List.flatMap_singleton, hconforms.mem_setFields_restrict]
    simp

omit hsound hlen in
/-- A plan assigns the fields that it reads, if they are set. -/
theorem mem_assigned {x : Field × Value} :
    x ∈ p.knownSet form m ++ p.unknownSet form stored m ↔
      x ∈ (m.restrict (p.keeps stored numbers)).setFields form s.pool s.index := by
  have hconforms := hm.conforms
  rw [List.mem_append, mem_knownSet hp hm, mem_unknownSet hp hm, hconforms.mem_setFields_restrict,
    keeps]
  cases stored.contains x.1.number <;> simp

variable (hstored : stored.Distinct)
include hstored

omit hsound hlen in
/-- A plan assigns no field twice. -/
theorem pairwise_assigned :
    (p.knownSet form m ++ p.unknownSet form stored m).Pairwise
      fun x y => x.1.number ≠ y.1.number := by
  have hconforms := hm.conforms
  obtain ⟨hschema, hknowns, -, -⟩ := known_of_ofNumbers hp
  refine List.pairwise_append.2 ⟨?_, ?_, fun x hx y hy heq => ?_⟩
  · unfold knownSet
    rw [hknowns]
    refine List.Pairwise.filterMap _ (fun a b hne x hx y hy => ?_)
      (pairwise_number_knownOf hstored s numbers)
    rw [fst_of_setField hx, fst_of_setField hy]
    exact hne
  · unfold unknownSet
    rw [hschema]
    cases p.unknownsColumn with
    | none => exact .nil
    | some column =>
      rw [Option.toList_some, List.flatMap_singleton]
      exact Conforms.pairwise_setFields (hconforms.of_sublist List.filter_sublist)
  · have hcolumn := ((mem_knownSet hp hm).1 hx).2.1
    rw [heq, ((mem_unknownSet hp hm).1 hy).2.1] at hcolumn
    exact Bool.false_ne_true hcolumn

omit hsound hlen in
/-- The known columns assign nothing to a field that has no column. -/
theorem find?_assignAll_knownSet {n : Nat} (hn : stored.contains n = false) :
    (empty.assignAll s.type (p.knownSet form m)).find? n = none := by
  have hconforms := hm.conforms
  have hkeep : ∀ x ∈ p.knownSet form m, ∀ y ∈ p.knownSet form m,
      y.1.number ∉ s.type.siblings x.1 := by
    intro x hx y hy
    exact hconforms.notMem_siblings ((mem_knownSet hp hm).1 hx).1 ((mem_knownSet hp hm).1 hy).1
  have hassigned : (p.knownSet form m ++ p.unknownSet form stored m).Pairwise
      fun x y => x.1.number ≠ y.1.number := pairwise_assigned hp hm hstored
  have hpairwise := (List.pairwise_append.1 hassigned).1
  cases hfind : (empty.assignAll s.type (p.knownSet form m)).find? n with
  | none => rfl
  | some e =>
    have hheld := find?_assignAll hpairwise hkeep (m := .empty) (fun _ _ => rfl)
      (fun _ _ _ _ => rfl) n e
    rcases hheld.1 hfind with ⟨x, hx, rfl, -⟩ | hnone
    · have hcontains := ((mem_knownSet hp hm).1 hx).2.1
      rw [hn] at hcontains
      exact absurd hcontains Bool.false_ne_true
    · cases hnone

variable (hgroup : ∀ f ∈ s.fields, stored.contains f.number = true → f.isGroup = false)
  (hregular : stored.Regular form s numbers)
include hgroup hregular

/-- The message of a shredded record is nothing with the fields assigned that the plan reads. -/
theorem materialize_shred_eq_assignAll :
    p.materialize (stored.shred form s m) =
      .ok (empty.assignAll s.type (p.knownSet form m ++ p.unknownSet form stored m)) := by
  obtain ⟨rfl, hknowns, -, -⟩ := known_of_ofNumbers hp
  have hdifferent : p.known.Pairwise fun a b => a.2.number ≠ b.2.number := by
    rw [hknowns]
    exact pairwise_number_knownOf hstored p.schema numbers
  have hof : ∀ known ∈ p.known, known.2 ∈ p.schema.fields ∧
      stored.contains known.2.number = true ∧ known.2.number ∈ numbers := by
    intro known hmem
    rw [hknowns] at hmem
    obtain ⟨hrequired, hfind, -⟩ := mem_knownOf.1 hmem
    exact ⟨(FieldTable.find?_eq_some_iff.1 hfind).1, contains_of_mem_knownOf hmem,
      (mem_requiredOf.1 hrequired).1⟩
  have hclosed : ∀ known ∈ p.known, known.2.isClosed = false := fun known hmem =>
    Field.isClosed_eq_false (hgroup known.2 (hof known hmem).1 (hof known hmem).2.1)
  have hpair : ∀ known ∈ p.known, ∀ entry, known.2.arity = .map entry →
      (p.schema.pool.message entry).IsPair form p.schema.pool := fun known hmem =>
    hregular known.2 (hof known hmem).1 (hof known hmem).2.1 (hof known hmem).2.2
  have hempty : ∀ known ∈ p.known, Message.empty.find? known.2.number = none := fun _ _ => rfl
  have hknown := foldlM_addKnown_shred hsound hp hm hlen (fun _ h => h) hclosed hpair
    hdifferent hempty
  -- The known columns have set none of the fields that stand in the column of all others.
  have hunknowns : p.unknownsColumn.toList.foldlM (p.addUnknowns (stored.shred form p.schema m))
      (empty.assignAll p.schema.type (p.knownSet form m)) =
      .ok ((empty.assignAll p.schema.type (p.knownSet form m)).assignAll p.schema.type
        (p.unknownSet form stored m)) := by
    unfold unknownSet
    cases hcolumn : p.unknownsColumn with
    | none => rfl
    | some column =>
      have hfresh : ∀ n, stored.contains n = false →
          (empty.assignAll p.schema.type (p.knownSet form m)).find? n = none :=
        fun n hn => find?_assignAll_knownSet hp hm hstored hn
      have hone := addUnknowns_shred hsound hp hm hlen hcolumn hfresh
      rw [Option.toList_some, List.foldlM_cons, hone, List.flatMap_singleton]
      rfl
  unfold materialize
  rw [hknown, assignAll_append]
  exact hunknowns

/-- The message of a shredded record is the message that was shredded, without the fields that the
plan does not read and trimmed. -/
theorem materialize_shred :
    p.materialize (stored.shred form s m) =
      .ok ((m.restrict (p.keeps stored numbers)).trim form s.pool s.index) := by
  have hconforms := hm.conforms
  have hkept : (m.restrict (p.keeps stored numbers)).Conforms s.pool Field.HoldsSome
      (IsOf s.pool Field.HoldsSome 99) s.index :=
    hconforms.of_sublist List.filter_sublist
  rw [materialize_shred_eq_assignAll hsound hp hm hlen hstored hgroup hregular]
  -- The columns assign the fields in an order of their own, which makes no difference.
  refine congrArg Except.ok (hkept.assignAll_eq_trim (fun x => ?_) ?_)
  · exact mem_assigned hp hm
  · exact pairwise_assigned hp hm hstored

end Shred

end Plan

end ColumnarRecords
