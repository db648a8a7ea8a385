import ColumnarRecords.Column.Field
import ColumnarRecords.Proofs.Column.Values
import ColumnarRecords.Proofs.Message.RoundTrip

/-!
# Columns are read back

What a field's values are written as in a column of its own is decoded to these values
(`Column.decodeField_encodeBare`). A column is read with readers of its own, which take a nested
message by its length and decode it by itself, and an entry of a map as a message of the type of
entries; they are shown to give what merging gives, trimmed in the same way.
-/

namespace ColumnarRecords.Column

open Descriptor Wire Message

/-- Values that are read one by one are read all together. -/
theorem readAll_flatMap {α β : Type} {read : Reader α} {write : β → List UInt8} {toValue : β → α}
    {l : List β}
    (h : ∀ b ∈ l, write b ≠ [] ∧ ∀ rest, read (write b ++ rest) = .ok (toValue b, rest)) :
    readAll read (l.flatMap write) = .ok (l.map toValue) := by
  induction l with
  | nil =>
    rw [List.flatMap_nil, readAll, if_pos rfl]
    rfl
  | cons b rest ih =>
    obtain ⟨hne, hread⟩ := h b List.mem_cons_self
    have hpos := List.length_pos_iff.2 hne
    rw [List.flatMap_cons, readAll, if_neg (by simp [hne]), hread]
    simp only
    rw [if_pos (by rw [List.length_append]; omega),
      ih fun c hc => h c (List.mem_cons_of_mem _ hc)]
    rfl

/-- A part of what is written for the values of a list is no longer than the whole. -/
theorem length_le_flatMap {β : Type} (write : β → List UInt8) {l : List β} {b : β} (h : b ∈ l) :
    (write b).length ≤ (l.flatMap write).length := by
  obtain ⟨before, after, rfl⟩ := List.append_of_mem h
  simp only [List.flatMap_append, List.flatMap_cons, List.length_append]
  omega

/-- A single value is read back from a column, if the messages that it may be are decoded from their
encoded forms. -/
theorem readValue_delimit_of_decode {form : EntryForm} {p : Pool} {N : Nat → Message → Prop}
    (hdecode : ∀ index m, N index m → (m.encode form p index).length < 2 ^ 64 →
      Message.decode p index (m.encode form p index) = .ok (m.trim form p index))
    {kind : Kind} {v : Value} (hv : kind.Accepts N v)
    (hlen : (kind.delimit (kind.body form p v)).length < 2 ^ 64) (rest : List UInt8) :
    readValue p kind (kind.delimit (kind.body form p v) ++ rest) =
      .ok (v.trim form p kind, rest) := by
  cases kind with
  | scalar s =>
    rw [Value.trim_of_scalar hv]
    exact readCoded_of_read (s.read_encode hv hlen rest)
  | enum index =>
    cases v with
    | enum n => exact readCoded_of_read (enumCoding_read n rest)
    | _ => exact hv.elim
  | message index =>
    cases v with
    | message m =>
      have hshort := Nat.lt_of_le_of_lt (length_le_encodeDelimited (m.encode form p index)) hlen
      have hcontent := readDelimited_of_read (readDelimited_encodeDelimited hshort rest)
      show readValue p (.message index) (encodeDelimited (m.encode form p index) ++ rest) = _
      simp only [readValue, hcontent, decodeMessage, hdecode index m hv hshort]
      rfl
    | _ => exact hv.elim

section

variable {form : EntryForm} {p : Pool} (hsound : p.Sound)
include hsound

/-- A single value that may be nested in a message is read back from a column. -/
theorem readValue_delimit {kind : Kind} {v : Value}
    (hv : kind.Accepts (IsOf p Field.HoldsSome 99) v)
    (hlen : (kind.delimit (kind.body form p v)).length < 2 ^ 64) (rest : List UInt8) :
    readValue p kind (kind.delimit (kind.body form p v) ++ rest) =
      .ok (v.trim form p kind, rest) :=
  readValue_delimit_of_decode (fun _ _ hm hlen => Message.decode_encode hsound hm hlen)
    hv hlen rest

section Entry

variable {entry : Nat} (hpair : (p.message entry).IsPair form p) {e : MapKey × Value}
  {keyField valueField : Field} (hkey : (p.message entry).fields.find? 1 = some keyField)
  (hvalue : (p.message entry).fields.find? 2 = some valueField)
include hpair hkey hvalue

/-- The key of an entry is read into a message of its type. -/
theorem run_keyBody (hk : keyField.kind.Accepts (IsOf p Field.HoldsSome 99) e.1.toValue)
    (hlen : (form.keyBody p (p.message entry) e.1).length < 2 ^ 64) :
    ∃ m, Run (Message.readField p nestingLimit entry) .empty
        (form.keyBody p (p.message entry) e.1) m ∧
      m.get keyField = e.1.toValue ∧ m.find? valueField.number = none := by
  obtain ⟨hkeymem, hkeynumber⟩ := FieldTable.find?_eq_some_iff.1 hkey
  obtain ⟨-, hvaluenumber⟩ := FieldTable.find?_eq_some_iff.1 hvalue
  have hkeysound := hsound.message entry keyField hkeymem
  have hkeysingle := hpair.single keyField hkey
  have hunset : Message.empty.get keyField = keyField.unsetValue := rfl
  simp only [EntryForm.keyBody, hkey] at hlen ⊢
  cases hwrites : form.writesKey p keyField e.1 with
  | false =>
    -- The field is not set, and its default is what was left out.
    have hzero := toValue_of_not_writesKey hwrites
    simp only [EntryForm.writesKey, Bool.or_eq_false_iff, beq_eq_false_iff_ne] at hwrites
    have hterse : form = .terse := by
      cases form with
      | terse => rfl
      | full => exact absurd rfl hwrites.1.1
    refine ⟨.empty, .nil _, ?_, rfl⟩
    rw [hunset, Field.unsetValue, hkeysingle, hzero]
    exact hpair.key hterse keyField hkey hwrites.1.2
  | true =>
    have hbody : keyField.kind.plainBody e.1.toValue = keyField.kind.body form p e.1.toValue := by
      cases keyField.kind <;> cases e.1 <;> rfl
    have hsingle := Field.encodeTagged_singleton (hkeysound.isPacked_of_single hkeysingle)
      (keyField.kind.body form p e.1.toValue)
    rw [hwrites, if_pos rfl, hbody, ← hsingle] at hlen
    rw [if_pos rfl, hbody, ← hsingle]
    have hvalueRun : ValueRun p (some (Message.readField p 99)) nestingLimit keyField _ _ _ :=
      valueRun_single (nestedLocal_readField p 99) (readsBack_readField hsound 99) hkeysound
        (number_of_find? hkey) hkeysingle hk hlen
    have hrun := hvalueRun.assigned (hkeynumber ▸ hkey) hunset
    rw [trim_toValue, if_neg (Field.encodeTagged_ne_nil (List.cons_ne_nil _ _))] at hrun
    exact ⟨_, hrun, get_assign_self _ _ _ _, find?_assign_eq_none rfl (by omega) _⟩

/-- The value of an entry is read into a message that holds the key. -/
theorem run_valueBody (hv : valueField.Accepts p (IsOf p Field.HoldsSome 99) e.2)
    (hlen : (valueBody form p (p.message entry) e.2).length < 2 ^ 64) {m : Message}
    (hfresh : m.find? valueField.number = none) :
    ∃ m', Run (Message.readField p nestingLimit entry) m
        (valueBody form p (p.message entry) e.2) m' ∧
      m'.get keyField = m.get keyField ∧
      m'.get valueField = trimPart form p (p.message entry) e.2 := by
  obtain ⟨-, hkeynumber⟩ := FieldTable.find?_eq_some_iff.1 hkey
  obtain ⟨hvaluemem, hvaluenumber⟩ := FieldTable.find?_eq_some_iff.1 hvalue
  have hvaluesound := hsound.message entry valueField hvaluemem
  have hunset := get_of_fresh hfresh
  simp only [valueBody, trimPart, hvalue] at hlen ⊢
  cases hwrites : form.writesValue valueField e.2 with
  | false => exact ⟨m, .nil _, rfl, hunset⟩
  | true =>
    rw [hwrites, if_pos rfl] at hlen
    have hvalueRun : ValueRun p (some (Message.readField p 99)) nestingLimit valueField _ _ _ :=
      valueRun_of_accepts (nestedLocal_readField p 99) (readsBack_readField hsound 99) hsound hv
        hvaluesound (number_of_find? hvalue) hlen
    have hrun := hvalueRun.assigned (hvaluenumber ▸ hvalue) hunset
    refine ⟨_, hrun, ?_⟩
    -- A list or a map of nothing leaves the field unset, which is the same.
    split
    · rename_i hbytes
      rw [hbytes] at hvalueRun
      exact ⟨rfl, hunset.trans hvalueRun.eq_of_nil.symm⟩
    · have hkeep : keyField.number ∉ (p.message entry).siblings valueField :=
        hkeynumber ▸ hpair.oneof valueField hvalue
      exact ⟨get_assign_of_ne (by omega) hkeep _ _, get_assign_self _ _ _ _⟩

/-- An entry of a map is read back as a message of its type, which holds the key and the value. -/
theorem decode_entryBody (hk : keyField.kind.Accepts (IsOf p Field.HoldsSome 99) e.1.toValue)
    (hv : valueField.Accepts p (IsOf p Field.HoldsSome 99) e.2)
    (hlen : (entryBody form p (p.message entry) e).length < 2 ^ 64) :
    ∃ m, Message.decode p entry (entryBody form p (p.message entry) e) = .ok m ∧
      m.get keyField = e.1.toValue ∧
      m.get valueField = trimPart form p (p.message entry) e.2 := by
  rw [entryBody, List.length_append] at hlen
  obtain ⟨m, hfirst, hgetkey, hfresh⟩ :=
    run_keyBody hsound hpair hkey hvalue hk (by omega)
  obtain ⟨m', hsecond, hkeep, hgetvalue⟩ :=
    run_valueBody hsound hpair hkey hvalue hv (by omega) hfresh
  refine ⟨m', ?_, hkeep.trans hgetkey, hgetvalue⟩
  rw [Message.decode, merge_eq_map, entryBody, mergeFields_of_run (hfirst.append hsecond)]
  rfl

/-- An entry of a map is read back from a column. -/
theorem readEntry_encodeDelimited
    (hk : keyField.kind.Accepts (IsOf p Field.HoldsSome 99) e.1.toValue)
    (hv : valueField.Accepts p (IsOf p Field.HoldsSome 99) e.2)
    (hlen : (encodeDelimited (entryBody form p (p.message entry) e)).length < 2 ^ 64)
    (rest : List UInt8) :
    readEntry p entry (encodeDelimited (entryBody form p (p.message entry) e) ++ rest) =
      .ok ((e.1, trimPart form p (p.message entry) e.2), rest) := by
  have hshort := Nat.lt_of_le_of_lt
    (length_le_encodeDelimited (entryBody form p (p.message entry) e)) hlen
  have hcontent := readDelimited_of_read (readDelimited_encodeDelimited hshort rest)
  obtain ⟨m, hdecode, hgetkey, hgetvalue⟩ :=
    decode_entryBody hsound hpair hkey hvalue hk hv hshort
  simp only [readEntry, hcontent, decodeMessage, hdecode, hkey, hvalue, hgetkey,
    MapKey.ofValue?_toValue, hgetvalue]

end Entry

section Field

variable {index : Nat} {f : Field} (hfind : (p.message index).fields.find? f.number = some f)
  (hclosed : f.isClosed = false) {m : Message} (hfresh : m.find? f.number = none)

omit hsound in
/-- The values of a field that are not closed by an end key are written one by one. -/
theorem encodeBare_of_not_isClosed (hclosed : f.isClosed = false) (bodies : List (List UInt8)) :
    f.encodeBare bodies = bodies.flatMap f.kind.delimit := by
  rw [Field.encodeBare, hclosed, if_neg Bool.false_ne_true]

omit hsound in
/-- Each of them takes a byte at least. -/
theorem delimit_ne_nil (hclosed : f.isClosed = false) {v : Value}
    (hv : f.kind.Accepts (IsOf p Field.HoldsSome 99) v) :
    f.kind.delimit (f.kind.body form p v) ≠ [] := by
  have hpayload : f.payload (f.kind.body form p v) ≠ [] := payload_ne_nil hv
  rwa [Field.payload, hclosed, if_neg Bool.false_ne_true] at hpayload

include hclosed in
/-- A single value is read back from the column of its field. -/
theorem readField_of_single (harity : f.arity = .single) {v : Value}
    (hv : f.kind.Accepts (IsOf p Field.HoldsSome 99) v)
    (hlen : (f.kind.delimit (f.kind.body form p v)).length < 2 ^ 64) (m : Message) :
    readField p f (f.kind.delimit (f.kind.body form p v)) m = .ok (v.trim form p f.kind) := by
  have hgroup : f.isGroup = false := by
    rw [← hclosed, Field.isClosed_of_not_map (by simp [harity])]
  have hread := readValue_delimit hsound hv hlen []
  rw [List.append_nil] at hread
  rw [readField_eq_readWhole harity hgroup, readWhole, hread]
  rfl

include hclosed hfresh in
/-- A list is read back from the column of its field, if the message has nothing of it yet. -/
theorem readField_of_list (harity : f.arity = .list) {values : List Value}
    (hvalues : ∀ v ∈ values, f.kind.Accepts (IsOf p Field.HoldsSome 99) v)
    (hlen : (values.flatMap fun v => f.kind.delimit (f.kind.body form p v)).length < 2 ^ 64) :
    readField p f (values.flatMap fun v => f.kind.delimit (f.kind.body form p v)) m =
      .ok (.list (values.map (Value.trim form p f.kind))) := by
  have hgroup : f.isGroup = false := by
    rw [← hclosed, Field.isClosed_of_not_map (by simp [harity])]
  have hlist : listOf m f = [] := by
    rw [listOf, get_of_fresh hfresh, Field.unsetValue, harity]
    rfl
  have hread : ∀ v ∈ values, f.kind.delimit (f.kind.body form p v) ≠ [] ∧
      ∀ rest, readValue p f.kind (f.kind.delimit (f.kind.body form p v) ++ rest) =
        .ok (v.trim form p f.kind, rest) := by
    intro v hv
    have hle := length_le_flatMap (fun v => f.kind.delimit (f.kind.body form p v)) hv
    have hshort := Nat.lt_of_le_of_lt hle hlen
    exact ⟨delimit_ne_nil hclosed (hvalues v hv), readValue_delimit hsound (hvalues v hv) hshort⟩
  have hall := readAll_flatMap hread
  rw [readField, harity, hgroup]
  simp only [Bool.false_eq_true, if_false, hall, hlist, List.nil_append]
  rfl

include hfresh in
/-- A map is read back from the column of its field, if the message has nothing of it yet: its
entries in the order of their keys. -/
theorem readField_of_map {entry : Nat} (harity : f.arity = .map entry)
    (hpair : (p.message entry).IsPair form p) {entries : List (MapKey × Value)}
    (hentries : ∀ e ∈ entries, ∃ keyField valueField,
      (p.message entry).fields.find? 1 = some keyField ∧
      (p.message entry).fields.find? 2 = some valueField ∧
      keyField.kind.Accepts (IsOf p Field.HoldsSome 99) e.1.toValue ∧
      valueField.Accepts p (IsOf p Field.HoldsSome 99) e.2)
    (hlen : (entries.flatMap fun e =>
      encodeDelimited (entryBody form p (p.message entry) e)).length < 2 ^ 64) :
    readField p f
        (entries.flatMap fun e => encodeDelimited (entryBody form p (p.message entry) e)) m =
      .ok (.map (insertAll
        (entries.map fun e => (e.1, trimPart form p (p.message entry) e.2)) [])) := by
  have hmap : mapOf m f = [] := by
    rw [mapOf, get_of_fresh hfresh, Field.unsetValue, harity]
    rfl
  have hread : ∀ e ∈ entries, encodeDelimited (entryBody form p (p.message entry) e) ≠ [] ∧
      ∀ rest, readEntry p entry (encodeDelimited (entryBody form p (p.message entry) e) ++ rest) =
        .ok ((e.1, trimPart form p (p.message entry) e.2), rest) := by
    intro e he
    obtain ⟨keyField, valueField, hkey, hvalue, hk, hv⟩ := hentries e he
    have hle := length_le_flatMap
      (fun e => encodeDelimited (entryBody form p (p.message entry) e)) he
    have hshort := Nat.lt_of_le_of_lt hle hlen
    exact ⟨encodeDelimited_ne_nil _,
      readEntry_encodeDelimited hsound hpair hkey hvalue hk hv hshort⟩
  have hall := readAll_flatMap hread
  rw [readField, harity]
  simp only [hall, hmap]
  rfl

include hfind hclosed hfresh in
/-- The values of a field that is set are read back from a column of its own, which is not empty. -/
theorem decodeField_encodeBare
    (hpair : ∀ entry, f.arity = .map entry → (p.message entry).IsPair form p) {v : Value}
    (hv : f.Accepts p (IsOf p Field.HoldsSome 99) v) (hset : f.isSet v = true)
    (hsome : f.HoldsSome v) (hlen : (f.encodeBare (v.bodies form p f.kind)).length < 2 ^ 64) :
    f.encodeBare (v.bodies form p f.kind) ≠ [] ∧
      decodeField p (p.message index) f (f.encodeBare (v.bodies form p f.kind)) m =
        .ok (m.assign (p.message index) f (v.trim form p f.kind)) := by
  have hf := hsound.message index f (FieldTable.find?_eq_some_iff.1 hfind).1
  have hassign : ∀ {bytes : List UInt8} {u : Value}, readField p f bytes m = .ok u →
      decodeField p (p.message index) f bytes m = .ok (m.assign (p.message index) f u) := by
    intro bytes u hread
    rw [decodeField_eq, hread]
    rfl
  rw [encodeBare_of_not_isClosed hclosed] at hlen ⊢
  cases harity : f.arity with
  | single =>
    have hvalue := hv.of_single harity
    rw [bodies_of_accepts hvalue, List.flatMap_singleton] at hlen ⊢
    exact ⟨delimit_ne_nil hclosed hvalue,
      hassign (readField_of_single hsound hclosed harity hvalue hlen m)⟩
  | list =>
    obtain ⟨values, rfl, hvalues⟩ := hv.of_list harity
    rw [Value.bodies, listBodies_of_accepts hvalues, List.flatMap_map] at hlen ⊢
    -- A list that is set has an element, and so its column a byte.
    have hne := ne_nil_of_isSet_list harity hset hsome
    obtain ⟨u, hu⟩ := List.exists_mem_of_ne_nil values hne
    refine ⟨fun hnil =>
      delimit_ne_nil hclosed (hvalues u hu) (List.flatMap_eq_nil_iff.1 hnil u hu), ?_⟩
    rw [Value.trim, trimList_eq_map]
    exact hassign (readField_of_list hsound hclosed hfresh harity hvalues hlen)
  | map entry =>
    have hkind : f.kind = .message entry := hf.map entry harity
    obtain ⟨entries, rfl, hentries⟩ := hv.of_map harity
    simp only [Value.bodies, hkind, mapBodies_eq_map, List.flatMap_map] at hlen ⊢
    have hne := ne_nil_of_isSet_map harity hset hsome
    -- The same for a map and its entries.
    obtain ⟨e, he⟩ := List.exists_mem_of_ne_nil entries hne
    refine ⟨fun hnil => encodeDelimited_ne_nil _ (List.flatMap_eq_nil_iff.1 hnil e he), ?_⟩
    rw [Value.trim, trimMap_eq_map]
    exact hassign (readField_of_map hsound hfresh harity (hpair entry harity) hentries hlen)

end Field

end

end ColumnarRecords.Column
