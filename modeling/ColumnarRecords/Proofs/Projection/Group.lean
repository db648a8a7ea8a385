import ColumnarRecords.Proofs.Projection.Presence
import ColumnarRecords.Proofs.Projection.Shredded

/-!
# Groups in columns of their own

A group has no length, so the column of a single one is its body: the fields of the group with their
keys. The body is decoded like any encoded message, whatever the group holds
(`Message.decode_encode_of_isOf`), and so a group is read back from a record just as a message is
(`Plan.group_of_shred`), with one exception. A group of which no field is set has a body of no bytes,
and an empty column leaves its field unset: such a group is lost (`Plan.materialize_emptyGroup`).

Other columns leave the group alone, since the message that was written has no other member of its
oneof. For the column of all other fields that is not obvious from its bytes, so it is taken from the
edit that they make (`Message.IsEdit.find?_of_untouched_of_closed`).
-/

namespace ColumnarRecords

open Descriptor Message

namespace Sample

/-- The type of the group, as declared. -/
def groupedGroup : Declaration.MessageType :=
  declaredMessage "G" [declared "x" 1 false ⟨5, ""⟩ none none] [] []

/-- The grouped message, as declared: a group of a number. -/
def groupedMessage : Declaration.MessageType :=
  declaredMessage "F" [declared "g" 1 false ⟨10, ".f.F.G"⟩ none none] [groupedGroup] []

/-- The grouped set: a message of a group. -/
def groupedSet : List UInt8 :=
  [10, 46, 10, 1, 102, 18, 1, 102, 34, 38, 10, 1, 70, 18, 17, 10, 1, 103, 24, 1, 32, 1, 40, 10, 50,
    6, 46, 102, 46, 70, 46, 71, 26, 14, 10, 1, 71, 18, 9, 10, 1, 120, 24, 1, 32, 1, 40, 5]

/-- The names that the grouped set defines. -/
def groupedDefinitions : Definitions :=
  ⟨[⟨"f", "f", .package⟩, ⟨"f.F", "f", .message 0 groupedMessage⟩, ⟨"f.F.g", "f", .member⟩,
    ⟨"f.F.G", "f", .message 1 groupedGroup⟩, ⟨"f.F.G.x", "f", .member⟩], 2, 0⟩

/-- The group of the grouped message. -/
def group : Field :=
  { field "f.F." "g" 1 (.message 1) .single (.message .empty) with
    hasPresence := true, isGroup := true }

/-- The number of the group. -/
def groupNumber : Field :=
  { field "f.F.G." "x" 1 (.scalar .int32) .single (.i32 0) with hasPresence := true }

/-- The types that the grouped set declares. -/
def groupedTypes : Resolved :=
  ⟨[⟨"f.F", ⟨[group], by decide, by decide⟩, .empty, [], false⟩,
    ⟨"f.F.G", ⟨[groupNumber], by decide, by decide⟩, .empty, [], false⟩], [], []⟩

/-- The schema of the grouped set. -/
def grouped : Schema := ⟨groupedTypes.pool, 0⟩

/-- The schema is loaded from the grouped set. -/
theorem ofDescriptorSet_groupedSet : Schema.ofDescriptorSet groupedSet "f.F" = .ok grouped := by
  have hoptions : checkFileOptions groupedDefinitions [declaredFile "f" groupedMessage none]
      groupedTypes (declaredFile "f" groupedMessage none) = .ok () :=
    checkFileOptions_of_isPlain rfl rfl rfl rfl
  exact Schema.ofDescriptorSet_eq_ok (by cbv) (by cbv) (by cbv) hoptions (by decide) (by cbv)

end Sample

section Column

variable {form : EntryForm} {p : Pool} {f : Field} (hsingle : f.arity = .single)
  (hgroup : f.isGroup = true)
  {index : Nat} (hkind : f.kind = .message index)
include hgroup hkind

/-- The column of a group is the body of the group. -/
theorem Message.bareField_of_group {w g : Message} (hg : w.value? f.number = some (.message g))
    (harity : f.arity = .single) : w.bareField form p f = g.encode form p index := by
  have hset : f.isSet (.message g) = true := by
    simp [Field.isSet, harity, Value.isSame]
  have hbodies : (Value.message g).bodies form p f.kind = [g.encode form p index] := by
    rw [hkind, Value.bodies]
  rw [bareField, hg]
  have hclosed : f.isClosed = true := by
    rw [Field.isClosed_of_not_map (by simp [harity]), hgroup]
  simp only [hset, hbodies, Field.encodeBare, hclosed, if_true, List.flatten_singleton]

include hsingle

/-- What a column of a group gives is the message that its bytes encode. -/
theorem Column.readField_of_group {bytes : List UInt8} {g : Message}
    (h : decode p index bytes = .ok g) (m : Message) :
    readField p f bytes m = .ok (.message g) := by
  simp only [readField, hsingle, readSingle, hkind, hgroup, decodeMessage, h]
  rfl

end Column

namespace Plan

variable {p : Plan} {r : Record}

/-- The known column of a group assigns the group that its bytes encode, unless there are none. -/
theorem addKnown_of_group {column : Nat} {f : Field} (hsingle : f.arity = .single)
    (hgroup : f.isGroup = true) {index : Nat} (hkind : f.kind = .message index)
    {bytes : List UInt8} (hcolumn : r.column? column = some bytes) {g : Message}
    (hg : decode p.schema.pool index bytes = .ok g) (m : Message) :
    p.addKnown r m (column, f) =
      .ok (if bytes = [] then m else m.assign p.schema.type f (.message g)) := by
  have hread := Column.readField_of_group hsingle hgroup hkind hg m
  rw [addKnown, bytesOf, hcolumn]
  simp only
  split
  · rfl
  · rw [Column.decodeField_eq, hread]
    rfl

/-- The number is that of a field, or of a member of its oneof. -/
def Rivals (t : MessageType) (f : Field) (n : Nat) : Prop :=
  n = f.number ∨ ∃ h i, t.find? n = some h ∧ h.oneof = some i ∧ f.oneof = some i

/-- Whatever clears a member of a oneof is a member. -/
theorem rivals_of_mem_siblings {t : MessageType} {f h : Field} (hf : t.find? f.number = some f)
    (hh : t.find? h.number = some h) {n : Nat} (hn : n ∈ t.siblings h) (hrival : Rivals t f n) :
    Rivals t f h.number := by
  unfold MessageType.siblings at hn
  cases honeof : h.oneof with
  | none =>
    rw [honeof] at hn
    exact absurd hn List.not_mem_nil
  | some i =>
    rw [honeof] at hn
    obtain ⟨k, hk, rfl⟩ := List.mem_map.1 hn
    obtain ⟨hmem, hcond⟩ := List.mem_filter.1 hk
    simp only [Bool.and_eq_true, beq_iff_eq] at hcond
    have hfind : t.find? k.number = some k :=
      MessageType.find?_of_fields (FieldTable.find?_eq_some_iff.2 ⟨hmem, rfl⟩)
    rcases hrival with hsame | ⟨k', j, hk', hj, hfj⟩
    · rw [hsame] at hfind
      obtain rfl := Option.some.inj (hf.symm.trans hfind)
      exact .inr ⟨h, i, hh, honeof, hcond.1⟩
    · obtain rfl := Option.some.inj (hfind.symm.trans hk')
      obtain rfl := Option.some.inj (hj.symm.trans hcond.1)
      exact .inr ⟨h, j, hh, honeof, hfj⟩

section Shred

variable {form : EntryForm} {s : Schema} {stored : StoredFields} {numbers : List Nat}
  (hp : ofNumbers s numbers stored = .ok p) {w : Message}

/-- The value of a field of a message is one that the field can have. -/
theorem accepts_of_value? {allowed : Field → Value → Prop} {N : Nat → Message → Prop}
    (hw : w.Conforms s.pool allowed N s.index) {f : Field}
    (hfind : s.type.fields.find? f.number = some f) {v : Value}
    (hv : w.value? f.number = some v) : f.Accepts s.pool N v := by
  have hentry := hw.value?_eq_some_iff.1 hv
  obtain ⟨f', u, hfind', hnumber, hu, haccepts, -⟩ := hw.exists_field hentry
  obtain rfl := Entry.value.inj hu
  rw [← hnumber] at hfind'
  obtain rfl := Option.some.inj (hfind.symm.trans hfind')
  exact haccepts

/-- A message that has a field has none of the other members of the field's oneof. -/
theorem find?_of_sibling {allowed : Field → Value → Prop} {N : Nat → Message → Prop}
    (hw : w.Conforms s.pool allowed N s.index) {f : Field}
    (hfind : s.type.fields.find? f.number = some f) {v : Value}
    (hv : w.value? f.number = some v) {n : Nat} (hn : n ∈ s.type.siblings f) :
    w.find? n = none := by
  by_contra hsome
  obtain ⟨e, he⟩ := Option.ne_none_iff_exists'.1 hsome
  have hfield := hw.value?_eq_some_iff.1 hv
  have hentry := (Ascending.find?_eq_some_iff hw.ascending).1 he
  exact hw.oneof _ hfield f hfind _ hentry hn

/-- What a message sets besides a field is no rival of the field. -/
theorem not_rivals_of_mem_setFields {allowed : Field → Value → Prop} {N : Nat → Message → Prop}
    (hw : w.Conforms s.pool allowed N s.index) {f : Field}
    (hfind : s.type.fields.find? f.number = some f) {v : Value}
    (hv : w.value? f.number = some v) {x : Field × Value} (hx : x ∈ w.setFields form s.pool s.index)
    (hne : x.1.number ≠ f.number) : ¬Rivals s.type f x.1.number := by
  obtain ⟨hxfind, u, hentry, -⟩ := hw.mem_setFields.1 hx
  rintro (hsame | ⟨h, i, hh, hi, hfi⟩)
  · exact hne hsame
  · obtain rfl := Option.some.inj ((MessageType.find?_of_fields hxfind).symm.trans hh)
    have hsibling : x.1.number ∈ s.type.siblings f :=
      (MessageType.mem_siblings_iff hxfind).2 ⟨⟨i, hi, hfi⟩, hne⟩
    have hnone := find?_of_sibling hw hfind hv hsibling
    rw [(Ascending.find?_eq_some_iff hw.ascending).2 hentry] at hnone
    cases hnone

variable (hw : w.IsOf s.pool Field.HoldsSome Wire.nestingLimit s.index)
include hp hw

/-- In the record of a message with a field the other members of the field's oneof have no column
with bytes. -/
theorem not_isFilled_of_sibling {f h : Field} {later : Nat} {v : Value}
    (hfind : s.type.fields.find? f.number = some f) (hv : w.value? f.number = some v)
    (hlater : (later, h) ∈ p.known) (hsibling : h.number ∈ s.type.siblings f) :
    ¬(stored.shred form s w).IsFilled later := by
  rintro ⟨bytes, hcolumn, hne⟩
  rw [column?_shred hp hlater] at hcolumn
  have hnone : w.value? h.number = none := by
    rw [value?, find?_of_sibling hw.conforms hfind hv hsibling]
  refine hne ?_
  rw [← Option.some.inj hcolumn, bareField, hnone]

variable (hsound : s.pool.Sound)
  (hlen : ∀ column ∈ (stored.shred form s w).columns, column.length < 2 ^ 64)
include hsound hlen

/-- The column of all other fields of the record of a message leaves a field alone that has a column
of its own, if the message has the field. -/
theorem find?_addUnknowns_shred {f : Field} (hfind : s.type.fields.find? f.number = some f)
    (hcontains : stored.contains f.number = true) {v : Value} (hv : w.value? f.number = some v)
    {column : Nat} (hcolumn : p.unknownsColumn = some column) :
    ∃ g : Message → Message, ∀ m, p.addUnknowns (stored.shred form s w) m column = .ok (g m) ∧
      (g m).find? f.number = m.find? f.number := by
  obtain ⟨hschema, -⟩ := known_of_ofNumbers hp
  have halone := addUnknowns_shred hsound hp hw hlen hcolumn fun n _ => find?_empty n
  obtain ⟨e, hfail⟩ | ⟨g, bytes, hg, -, -, hok⟩ := addUnknowns_cases p (stored.shred form s w) column
  · rw [hfail] at halone
    cases halone
  rw [hschema] at hg
  refine ⟨g, fun m => ⟨hok m, ?_⟩⟩
  -- Decoded by itself, the column gives neither the field nor a member of its oneof.
  have hrest : (w.restrict fun n => !stored.contains n).Conforms s.pool Field.HoldsSome
      (IsOf s.pool Field.HoldsSome 99) s.index := hw.conforms.of_sublist List.filter_sublist
  have hempty : g .empty = (w.restrict fun n => !stored.contains n).trim form s.pool s.index := by
    rw [hok] at halone
    rw [Except.ok.inj halone]
    exact hrest.assignAll_eq_trim (fun _ => Iff.rfl) hrest.pairwise_setFields
  have huntouched : ∀ n, Rivals s.type f n → (g .empty).find? n = none := by
    intro n hrival
    by_contra hsome
    obtain ⟨e, he⟩ := Option.ne_none_iff_exists'.1 hsome
    rw [hempty, hrest.find?_trim] at he
    obtain ⟨x, hx, rfl, -⟩ := he
    obtain ⟨hx, hkeep⟩ := hw.conforms.mem_setFields_restrict.1 hx
    refine not_rivals_of_mem_setFields hw.conforms hfind hv hx (fun hsame => ?_) hrival
    rw [hsame, hcontains] at hkeep
    cases hkeep
  have hclosed : ∀ h, s.type.find? h.number = some h → ∀ n ∈ s.type.siblings h,
      Rivals s.type f n → Rivals s.type f h.number := fun h hh n hn hrival =>
    rivals_of_mem_siblings (MessageType.find?_of_fields hfind) hh hn hrival
  exact (hg.find?_of_untouched_of_closed hclosed huntouched f.number (.inl rfl)).2 m

omit hsound hlen hw in
/-- The column of a single group in the record of a message is the body of the group. -/
theorem column?_shred_of_group {column : Nat} {f : Field} (hknown : (column, f) ∈ p.known)
    (hsingle : f.arity = .single) (hgroup : f.isGroup = true) {index : Nat}
    (hkind : f.kind = .message index) {g : Message} (hg : w.value? f.number = some (.message g)) :
    (stored.shred form s w).column? column = some (g.encode form s.pool index) := by
  rw [column?_shred hp hknown, bareField_of_group hgroup hkind hg hsingle]

/-- The body of a single group of a message decodes to the group, less what does not count as
set. -/
theorem decode_of_group {column : Nat} {f : Field} (hknown : (column, f) ∈ p.known)
    (hsingle : f.arity = .single) (hgroup : f.isGroup = true) {index : Nat}
    (hkind : f.kind = .message index) {g : Message} (hg : w.value? f.number = some (.message g)) :
    decode s.pool index (g.encode form s.pool index) = .ok (g.trim form s.pool index) := by
  have hcolumn : (stored.shred form s w).column? column = some (g.encode form s.pool index) :=
    column?_shred_of_group hp hknown hsingle hgroup hkind hg
  have hshort := hlen _ (List.mem_of_getElem? hcolumn)
  obtain ⟨rfl, hknowns, -, -⟩ := known_of_ofNumbers hp
  rw [hknowns] at hknown
  obtain ⟨-, hfind, -⟩ := mem_knownOf.1 hknown
  -- The value of the field is a message that is nested one level less deep.
  have haccepts := (accepts_of_value? hw.conforms hfind hg).of_single hsingle
  rw [hkind] at haccepts
  exact decode_encode hsound haccepts hshort

/-- A single group of a message can be read from its column. -/
theorem exists_addKnown_of_group {column : Nat} {f : Field} (hknown : (column, f) ∈ p.known)
    (hsingle : f.arity = .single) (hgroup : f.isGroup = true) :
    ∃ m, p.addKnown (stored.shred form s w) .empty (column, f) = .ok m := by
  cases hvalue : w.value? f.number with
  | none =>
    have hcolumn : (stored.shred form s w).column? column = some (w.bareField form s.pool f) :=
      column?_shred hp hknown
    rw [bareField, hvalue] at hcolumn
    refine ⟨.empty, ?_⟩
    rw [addKnown, bytesOf, hcolumn]
    simp only [if_true]
  | some v =>
    obtain ⟨rfl, hknowns, -, -⟩ := known_of_ofNumbers hp
    obtain ⟨-, hfind, -⟩ := mem_knownOf.1 (hknowns ▸ hknown)
    obtain ⟨index, hkind⟩ :=
      (hsound.message _ f (FieldTable.find?_eq_some_iff.1 hfind).1).group hgroup
    have haccepts := (accepts_of_value? hw.conforms hfind hvalue).of_single hsingle
    rw [hkind] at haccepts
    cases v with
    | message g =>
      have hcolumn : (stored.shred form p.schema w).column? column =
          some (g.encode form p.schema.pool index) :=
        column?_shred_of_group hp hknown hsingle hgroup hkind hvalue
      have hdecode :=
        decode_of_group hp hw hsound hlen hknown hsingle hgroup hkind hvalue
      exact ⟨_, addKnown_of_group hsingle hgroup hkind hcolumn hdecode .empty⟩
    | _ => exact haccepts.elim

/-- The record of a message can be read if no planned field is a list of groups, and the entries of
planned maps are pairs. -/
theorem exists_materialize_shred (hlist : ∀ h ∈ p.knownFields, h.isGroup = true → h.arity ≠ .list)
    (hpair : ∀ h ∈ p.knownFields, ∀ entry, h.arity = .map entry →
      (s.pool.message entry).IsPair form s.pool) :
    ∃ m, p.materialize (stored.shred form s w) = .ok m := by
  have hknown : ∀ known ∈ p.known, ∃ m, p.addKnown (stored.shred form s w) .empty known = .ok m := by
    intro known hmem
    have hfield : known.2 ∈ p.knownFields := List.mem_map_of_mem hmem
    -- A group is read by its body, and everything else value by value.
    cases hclosed : known.2.isClosed with
    | true =>
      have hgroup : known.2.isGroup = true := by
        by_contra hnot
        rw [Field.isClosed_eq_false (by simpa using hnot)] at hclosed
        cases hclosed
      cases harity : known.2.arity with
      | single => exact exists_addKnown_of_group hp hw hsound hlen hmem harity hgroup
      | list => exact absurd harity (hlist _ hfield hgroup)
      | map entry =>
        rw [Field.isClosed_of_map harity] at hclosed
        cases hclosed
    | false =>
      exact ⟨_, addKnown_shred hsound hp hw hlen hmem hclosed (hpair _ hfield) (find?_empty _)⟩
  obtain ⟨m₀, hm₀⟩ := exists_foldlM_addKnown_iff (m := .empty).2 hknown
  cases hcolumn : p.unknownsColumn with
  | none => exact ⟨m₀, materialize_eq_ok.2 ⟨m₀, hm₀, .inl ⟨hcolumn, rfl⟩⟩⟩
  | some column =>
    have halone := addUnknowns_shred hsound hp hw hlen hcolumn fun n _ => find?_empty n
    obtain ⟨e, hfail⟩ | ⟨g, bytes, -, -, -, hok⟩ :=
      addUnknowns_cases p (stored.shred form s w) column
    · rw [hfail] at halone
      cases halone
    · exact ⟨g m₀, materialize_eq_ok.2 ⟨m₀, hm₀, .inr ⟨column, hcolumn, hok m₀⟩⟩⟩

/-- What a known column of the record of a message gives is what the message holds under the number
of its field, as no other column changes it. -/
theorem find?_materialize_shred (hstored : stored.Distinct) {column : Nat} {f : Field}
    (hknown : (column, f) ∈ p.known) {v : Value} (hv : w.value? f.number = some v) {m : Message}
    (hm : p.materialize (stored.shred form s w) = .ok m) {e : Entry} :
    m.find? f.number = some e ↔
      ∃ u, p.Gives (stored.shred form s w) (column, f) u ∧ e = .value u := by
  have ho := isOrderly_of_ofNumbers hstored hp
  obtain ⟨rfl, -⟩ := known_of_ofNumbers hp
  have hfind := ho.find _ hknown
  obtain ⟨m₀, hfold, hrest⟩ := materialize_eq_ok.1 hm
  have hsame : m.find? f.number = m₀.find? f.number := by
    obtain ⟨-, rfl⟩ | ⟨last, hlast, hmerge⟩ := hrest
    · rfl
    · have hcontains : stored.contains f.number = true := by
        obtain ⟨-, hknowns, -⟩ := known_of_ofNumbers hp
        rw [hknowns] at hknown
        exact contains_of_mem_knownOf hknown
      obtain ⟨g, hg⟩ := find?_addUnknowns_shred hp hw hsound hlen hfind hcontains hv hlast
      obtain ⟨hok, hsame⟩ := hg m₀
      rw [← Except.ok.inj (hok.symm.trans hmerge), hsame]
  rw [hsame, find?_known_iff ho.ascending ho.number hfold]
  constructor
  · rintro ⟨known, u, hleaves, hnumber, rfl⟩
    obtain rfl := ho.eq_of_number hleaves.mem hknown hnumber
    exact ⟨u, hleaves.gives, rfl⟩
  · rintro ⟨u, hgives, rfl⟩
    refine ⟨(column, f), u, ⟨hknown, hgives, ?_⟩, rfl, rfl⟩
    intro later hlater hlt hfilled hcleared
    obtain ⟨⟨i, hi, hlateri⟩, hne⟩ := (MessageType.mem_siblings_iff hfind).1 hcleared
    have hsibling : later.2.number ∈ p.schema.type.siblings f :=
      (MessageType.mem_siblings_iff (ho.find later hlater)).2 ⟨⟨i, hlateri, hi⟩, hne.symm⟩
    exact not_isFilled_of_sibling hp hw hfind hv hlater hsibling hfilled

/-- A single group of a message is in the message that is read, unless its body is empty: then nothing
is. -/
theorem group_of_materialize_shred (hstored : stored.Distinct) {column : Nat} {f : Field}
    (hknown : (column, f) ∈ p.known) (hsingle : f.arity = .single) (hgroup : f.isGroup = true)
    {index : Nat} (hkind : f.kind = .message index) {g : Message}
    (hg : w.value? f.number = some (.message g)) {m : Message}
    (hm : p.materialize (stored.shred form s w) = .ok m) :
    if g.encode form s.pool index = [] then m.find? f.number = none
    else (f, .message (g.trim form s.pool index)) ∈ m.fields s.type := by
  have hcolumn : (stored.shred form s w).column? column = some (g.encode form s.pool index) :=
    column?_shred_of_group hp hknown hsingle hgroup hkind hg
  have hfound := fun e =>
    find?_materialize_shred hp hw hsound hlen hstored hknown hg hm (e := e)
  split
  · rename_i hempty
    by_contra hsome
    obtain ⟨e, he⟩ := Option.ne_none_iff_exists'.1 hsome
    obtain ⟨u, ⟨bytes, hbytes, hne, -⟩, -⟩ := (hfound e).1 he
    rw [hcolumn] at hbytes
    exact hne ((Option.some.inj hbytes).symm.trans hempty)
  · rename_i hne
    have hdecode := decode_of_group hp hw hsound hlen hknown hsingle hgroup hkind hg
    have ho := isOrderly_of_ofNumbers hstored hp
    obtain ⟨rfl, -⟩ := known_of_ofNumbers hp
    have hfind := ho.find _ hknown
    have hgives : p.Gives (stored.shred form p.schema w) (column, f)
        (.message (g.trim form p.schema.pool index)) :=
      ⟨_, hcolumn, hne, Column.readField_of_group hsingle hgroup hkind hdecode .empty⟩
    have hvalue := (hfound _).2 ⟨_, hgives, rfl⟩
    have hisSet : f.isSet (.message (g.trim form p.schema.pool index)) = true := by
      simp [Field.isSet, hsingle, Value.isSame]
    exact (ascending_of_materialize hm).mem_fieldsOf.2 ⟨hfind, hvalue, hisSet⟩

end Shred

/-- A group of a message is read back from the record of the message, unless its body is empty: then
it is lost, as an empty column leaves its field unset. By itself, a group is read back from its
column however deep it is nested within the limit; of a whole record all other fields have to be
readable too, which lists of groups are not, nor maps in general whose entries are no pairs. -/
theorem group_of_shred {set : List UInt8} {name : String} {s : Schema}
    (hset : Schema.ofDescriptorSet set name = .ok s) (form : EntryForm) {stored : StoredFields}
    (hstored : stored.Distinct) {numbers : List Nat} (hp : ofNumbers s numbers stored = .ok p)
    {f : Field} (hf : f ∈ s.fields)
    (hsingle : f.arity = .single) (hgroup : f.isGroup = true) {index : Nat}
    (hkind : f.kind = .message index) {column : Nat} {id : Int32}
    (hid : stored.ids[column]? = some id) (hnumber : id.toInt = f.number)
    (hrequired : f.number ∈ numbers) :
    (∀ g : Message, g.IsOf s.pool Field.HoldsSome Wire.nestingLimit index →
      (g.encode form s.pool index).length < 2 ^ 64 →
      ∀ r : Record, r.column? column = some (g.encode form s.pool index) →
        ∀ m, p.addKnown r m (column, f) =
          .ok (if g.encode form s.pool index = [] then m
            else m.assign s.type f (.message (g.trim form s.pool index)))) ∧
    ∀ w g : Message, w.IsOf s.pool Field.HoldsSome Wire.nestingLimit s.index →
      (∀ column ∈ (stored.shred form s w).columns, column.length < 2 ^ 64) →
      w.value? f.number = some (.message g) →
        (stored.shred form s w).column? column = some (g.encode form s.pool index) ∧
        (∀ m, p.materialize (stored.shred form s w) = .ok m →
          if g.encode form s.pool index = [] then m.find? f.number = none
          else (f, .message (g.trim form s.pool index)) ∈ m.fields s.type) ∧
        ((∀ h ∈ p.knownFields, h.isGroup = true → h.arity ≠ .list) →
          (∀ h ∈ p.knownFields, ∀ entry, h.arity = .map entry →
            (s.pool.message entry).IsPair form s.pool) →
          ∃ m, p.materialize (stored.shred form s w) = .ok m) := by
  have hsound := Schema.sound_of_ofDescriptorSet hset
  have hfind : s.type.fields.find? f.number = some f :=
    FieldTable.find?_eq_some_iff.2 ⟨hf, rfl⟩
  have hknown : (column, f) ∈ p.known := by
    obtain ⟨rfl, hknowns, -⟩ := known_of_ofNumbers hp
    rw [hknowns]
    refine mem_knownOf.2 ⟨mem_requiredOf.2 ⟨hrequired, f, hfind⟩, hfind, id, hid, hnumber⟩
  refine ⟨fun g hg hlen r hcolumn m => ?_, fun w g hw hlen hg => ?_⟩
  · obtain ⟨rfl, -⟩ := known_of_ofNumbers hp
    have hdecode := decode_encode_of_isOf hsound hg hlen
    exact addKnown_of_group hsingle hgroup hkind hcolumn hdecode m
  · exact ⟨column?_shred_of_group hp hknown hsingle hgroup hkind hg,
      fun m hm => group_of_materialize_shred hp hw hsound hlen hstored hknown hsingle
        hgroup hkind hg hm,
      exists_materialize_shred hp hw hsound hlen⟩

/-- A plan that reads the group of the grouped message. -/
def groupedPlan : Plan :=
  ⟨Sample.grouped, [(0, Sample.group)], none, [], [1], 1⟩

/-- A grouped message with its group set. -/
def groupedMessage (g : Message) : Message := ⟨[(1, .value (.message g))]⟩

/-- A grouped message is of its type if the group is of its own. -/
theorem isOf_groupedMessage {g : Message}
    (hg : g.Conforms Sample.grouped.pool Field.HoldsSome
      (IsOf Sample.grouped.pool Field.HoldsSome 98) 1) :
    (groupedMessage g).IsOf Sample.grouped.pool Field.HoldsSome Wire.nestingLimit
      Sample.grouped.index := by
  have hinner : g.IsOf Sample.grouped.pool Field.HoldsSome 99 1 := hg
  have hsome : Sample.group.HoldsSome (.message g) := fun _ => ⟨by simp, by simp⟩
  exact conforms_singleton ⟨Sample.group, rfl, .single rfl hinner, hsome⟩

/-- A group that holds a number is read back. -/
theorem group_of_shred_grouped :
    Schema.ofDescriptorSet Sample.groupedSet "f.F" = .ok Sample.grouped ∧
      StoredFields.Distinct ⟨[1]⟩ ∧ ofNumbers Sample.grouped [1] ⟨[1]⟩ = .ok groupedPlan ∧
      ∃ m, groupedPlan.materialize
          (StoredFields.shred ⟨[1]⟩ .full Sample.grouped
            (groupedMessage ⟨[(1, .value (.i32 5))]⟩)) = .ok m ∧
        (Sample.group, .message ⟨[(1, .value (.i32 5))]⟩) ∈ m.fields Sample.grouped.type := by
  have hset := Sample.ofDescriptorSet_groupedSet
  have hstored : StoredFields.Distinct ⟨[1]⟩ := ⟨[1], .inl rfl, by decide, by simp⟩
  have hplan : ofNumbers Sample.grouped [1] ⟨[1]⟩ = .ok groupedPlan := by cbv
  have hf : Sample.group ∈ Sample.grouped.fields := List.mem_singleton_self _
  have hnumber : Message.Conforms Sample.grouped.pool Field.HoldsSome
      (IsOf Sample.grouped.pool Field.HoldsSome 98) 1 ⟨[(1, .value (.i32 5))]⟩ :=
    conforms_singleton ⟨Sample.groupNumber, rfl, .single rfl trivial, fun _ => ⟨by simp, by simp⟩⟩
  have hid : (StoredFields.ids ⟨[1]⟩)[0]? = some 1 := rfl
  obtain ⟨-, hall⟩ := group_of_shred hset .full hstored hplan hf rfl rfl rfl hid rfl
    (List.mem_singleton_self _)
  have hrow : StoredFields.shred ⟨[1]⟩ .full Sample.grouped
      (groupedMessage ⟨[(1, .value (.i32 5))]⟩) = ⟨[[8, 5]]⟩ := by cbv
  have hbody : encode .full Sample.grouped.pool 1 ⟨[(1, .value (.i32 5))]⟩ = [8, 5] := by cbv
  obtain ⟨-, hvalue, hread⟩ :=
    hall _ _ (isOf_groupedMessage hnumber) (by rw [hrow]; decide) rfl
  have hsingle : ∀ h ∈ groupedPlan.knownFields, h.arity = .single := by
    intro h hmem
    obtain rfl := List.mem_singleton.1 hmem
    rfl
  obtain ⟨m, hm⟩ := hread (fun h hmem _ => by simp [hsingle h hmem])
    fun h hmem entry hmap => by simp [hsingle h hmem] at hmap
  refine ⟨hset, hstored, hplan, m, hm, ?_⟩
  have hfields := hvalue m hm
  rw [hbody, if_neg (List.cons_ne_nil _ _)] at hfields
  exact hfields

/-- A group that is set and holds nothing is lost: its column is empty, and the message that is read
has no field. -/
theorem materialize_emptyGroup :
    Schema.ofDescriptorSet Sample.groupedSet "f.F" = .ok Sample.grouped ∧
      Sample.group ∈ Sample.grouped.fields ∧
      StoredFields.Distinct ⟨[1]⟩ ∧ ofNumbers Sample.grouped [1] ⟨[1]⟩ = .ok groupedPlan ∧
      (groupedMessage .empty).IsOf Sample.grouped.pool Field.HoldsSome Wire.nestingLimit
        Sample.grouped.index ∧
      (Sample.group, .message .empty) ∈ (groupedMessage .empty).fields Sample.grouped.type ∧
      StoredFields.shred ⟨[1]⟩ .full Sample.grouped (groupedMessage .empty) = ⟨[[]]⟩ ∧
      ∃ m, groupedPlan.materialize ⟨[[]]⟩ = .ok m ∧ m.fields Sample.grouped.type = [] := by
  have hstored : StoredFields.Distinct ⟨[1]⟩ := ⟨[1], .inl rfl, by decide, by simp⟩
  have hset : (groupedMessage .empty).fields Sample.grouped.type =
      [(Sample.group, .message .empty)] := rfl
  refine ⟨Sample.ofDescriptorSet_groupedSet, List.mem_singleton_self _, hstored,
    by cbv, isOf_groupedMessage conforms_empty, ?_, by cbv, .empty, rfl, rfl⟩
  rw [hset]
  exact List.mem_singleton_self _

end Plan

end ColumnarRecords
