import ColumnarRecords.Proofs.Descriptor.Sound
import ColumnarRecords.Proofs.Message.Entry
import ColumnarRecords.Proofs.Message.Plain
import ColumnarRecords.Proofs.Message.Run
import ColumnarRecords.Proofs.Message.Trim

/-!
# Fields are read back

What is written for a value of a field is merged back into an unset one
(`Message.valueRun_of_accepts`): a single value, the elements of a list one by one or packed, and the
entries of a map, in whichever order they are written, with both parts or with those only that have
to be there. The value of an entry is itself that of a field, of any arity, so the induction is on
how maps are nested. What is nested as a message is assumed to be read back by the reader of nested
fields (`Message.ReadsBack`); the induction on that depth is left to messages as a whole.

Merging values is separate from where they stand: the same run is one over the fields of a message
(`ValueRun.assigned`) and one over those of an entry (`ValueRun.entry`).
-/

namespace ColumnarRecords

open Descriptor Wire

/-- The wire type in the key of a single value. -/
def Descriptor.Field.keyType (f : Field) : WireType :=
  if f.isClosed then .startGroup else f.kind.wireType

/-- What follows the key of a single value with a body. -/
def Descriptor.Field.payload (f : Field) (body : List UInt8) : List UInt8 :=
  if f.isClosed then body ++ encodeKey f.number .endGroup else f.kind.delimit body

/-- A single value is written as a key and what follows it. -/
theorem Descriptor.Field.encodeKeyed_eq (f : Field) (body : List UInt8) :
    f.encodeKeyed body = encodeKey f.number f.keyType ++ f.payload body := by
  unfold encodeKeyed keyType payload
  split
  · rw [List.append_assoc]
  · rfl

/-- No value begins with the end of a group. -/
theorem Descriptor.Field.keyType_ne_endGroup (f : Field) : f.keyType ≠ .endGroup := by
  unfold keyType
  split
  · decide
  · cases f.kind with
    | scalar s => cases s <;> decide
    | message index =>
      intro h
      cases h
    | enum index =>
      intro h
      cases h

/-- Unless a field is a map, its values are closed by an end key if they are groups. -/
theorem Descriptor.Field.isClosed_of_not_map {f : Field} (h : ∀ entry, f.arity ≠ .map entry) :
    f.isClosed = f.isGroup := by
  unfold isClosed
  split
  · rename_i entry harity
    exact absurd harity (h entry)
  · rfl

/-- What is closed by an end key is a group. -/
theorem Descriptor.Field.isClosed_eq_false {f : Field} (h : f.isGroup = false) :
    f.isClosed = false := by
  unfold isClosed
  split
  · rfl
  · exact h

/-- Entries have a length. -/
theorem Descriptor.Field.isClosed_of_map {f : Field} {entry : Nat} (h : f.arity = .map entry) :
    f.isClosed = false := by
  rw [isClosed, h]

/-- Only messages are groups. -/
theorem Descriptor.Field.Sound.notClosed {f : Field} (h : f.Sound)
    (hkind : ∀ index, f.kind ≠ .message index) : f.isClosed = false := by
  refine Field.isClosed_eq_false ?_
  cases hgroup : f.isGroup with
  | false => rfl
  | true =>
    obtain ⟨index, hindex⟩ := h.group hgroup
    exact absurd hindex (hkind index)

/-- What is packed is no message. -/
theorem Descriptor.Kind.ne_message_of_isPackable {kind : Kind} (h : kind.isPackable = true)
    (index : Nat) : kind ≠ .message index := by
  rintro rfl
  exact Bool.false_ne_true h

/-- Values that can be packed are written without a length of their own. -/
theorem Descriptor.Field.Sound.payload_of_isPackable {f : Field} (h : f.Sound)
    (hpackable : f.kind.isPackable = true) (body : List UInt8) : f.payload body = body := by
  have hmessage := Kind.ne_message_of_isPackable hpackable
  rw [Field.payload, h.notClosed hmessage]
  cases hkind : f.kind with
  | message index => exact absurd hkind (hmessage index)
  | scalar s => rfl
  | enum index => rfl

/-- Values that can be packed are no groups. -/
theorem Descriptor.Field.Sound.keyType_of_isPackable {f : Field} (h : f.Sound)
    (hpackable : f.kind.isPackable = true) : f.keyType = f.kind.wireType := by
  rw [Field.keyType, h.notClosed (Kind.ne_message_of_isPackable hpackable)]
  rfl

/-- One value is packed with nothing. -/
theorem Descriptor.Field.encodeTagged_singleton {f : Field} (h : f.isPacked = false)
    (body : List UInt8) : f.encodeTagged [body] = f.encodeKeyed body := by
  unfold encodeTagged
  rw [h, List.flatMap_singleton]
  exact if_neg Bool.false_ne_true

/-- Single fields are not packed. -/
theorem Descriptor.Field.Sound.isPacked_of_single {f : Field} (h : f.Sound)
    (harity : f.arity = .single) : f.isPacked = false := by
  cases hpacked : f.isPacked with
  | false => rfl
  | true =>
    have hlist := (h.packed hpacked).1
    rw [harity] at hlist
    cases hlist

/-- There is nothing to trim in a plain value. -/
theorem Value.trim_of_scalar {form : EntryForm} {p : Pool} {s : Scalar} {v : Value}
    (h : s.Accepts v) (kind : Kind) : v.trim form p kind = v := by
  cases v <;> first | rfl | (cases s <;> exact h.elim)

/-- A plain value has a byte. -/
theorem Descriptor.Scalar.encode_ne_nil {s : Scalar} {v : Value} (h : s.Accepts v) :
    s.encode v ≠ [] := by
  intro hnil
  -- It would be read back from nothing, which no coding reads.
  have hread := s.read_encode h (by rw [hnil]; decide) []
  rw [hnil] at hread
  cases s <;> cases hread

/-- The key of an entry that is equal to a value as a number or text is this value. -/
theorem MapKey.toValue_eq_of_isSame {key : MapKey} {v : Value} (h : key.toValue.isSame v = true) :
    key.toValue = v := by
  cases key <;> cases v <;> first
    | exact absurd h Bool.false_ne_true
    | exact congrArg _ (eq_of_beq h)

namespace Message

/-- What reads the fields inside a nested message reads back what is written of messages that may be
nested. -/
def ReadsBack (form : EntryForm) (p : Pool) (nested : Option FieldReader)
    (N : Nat → Message → Prop) : Prop :=
  ∀ index m, N index m → (m.encode form p index).length < 2 ^ 64 →
    ∃ step, nested = some step ∧
      Run (step index) .empty (m.encode form p index) (m.trim form p index)

/-- Merging the values of a field, each behind its key, takes what the field holds from one value to
another over the bytes. -/
inductive ValueRun (p : Pool) (nested : Option FieldReader) (budget : Nat) (f : Field) :
    Value → List UInt8 → Value → Prop where
  /-- There is no value. -/
  | nil (v : Value) : ValueRun p nested budget f v [] v
  /-- There is a value, and there may be others after it. -/
  | cons {v v' v'' : Value} {w : WireType} {value bytes : List UInt8} (hw : w ≠ .endGroup)
    (hstep : ∀ rest, readValue p nested budget f w v (value ++ rest) = .ok (v', rest))
    (h : ValueRun p nested budget f v' bytes v'') :
    ValueRun p nested budget f v (encodeKey f.number w ++ value ++ bytes) v''

/-- The number of a field of a type fits a key. -/
theorem number_of_find? {t : MessageType} {number : Nat} {f : Field}
    (h : t.fields.find? number = some f) : 1 ≤ f.number ∧ f.number ≤ maxFieldNumber :=
  t.fields.number_mem f (FieldTable.find?_eq_some_iff.1 h).1

namespace ValueRun

variable {p : Pool} {nested : Option FieldReader} {budget : Nat} {f : Field} {v v' : Value}
  {bytes : List UInt8}

/-- One value is run. -/
theorem single {w : WireType} {value : List UInt8} (hw : w ≠ .endGroup)
    (hstep : ∀ rest, readValue p nested budget f w v (value ++ rest) = .ok (v', rest)) :
    ValueRun p nested budget f v (encodeKey f.number w ++ value) v' := by
  have h := ValueRun.cons hw hstep (.nil v')
  rwa [List.append_nil] at h

/-- Without bytes there is no value. -/
theorem eq_of_nil (h : ValueRun p nested budget f v [] v') : v' = v := by
  generalize hbytes : ([] : List UInt8) = bytes at h
  cases h with
  | nil => rfl
  | cons hw hstep h =>
    have hpos := length_encodeKey_pos f.number ‹WireType›
    have hlen := congrArg List.length hbytes
    simp only [List.length_append, List.length_nil] at hlen
    omega

/-- The values of a field of a message are merged into the field, which is assigned if there are
any. -/
theorem assigned {index : Nat} (hfind : (p.message index).fields.find? f.number = some f)
    (h : ValueRun p nested budget f v bytes v') {m : Message} (hget : m.get f = v) :
    Run (readFieldWith p nested budget index) m bytes
      (if bytes = [] then m else m.assign (p.message index) f v') := by
  induction h generalizing m with
  | nil v =>
    rw [if_pos rfl]
    exact .nil m
  | @cons v v₁ v₂ w value bytes hw hstep h ih =>
    have hne : encodeKey f.number w ++ value ++ bytes ≠ [] := by
      have hpos := length_encodeKey_pos f.number w
      refine List.ne_nil_of_length_pos ?_
      simp only [List.length_append]
      omega
    rw [if_neg hne]
    refine .cons (number_of_find? hfind) hw (fun rest => ?_)
      (?_ : Run _ (m.assign (p.message index) f v₁) bytes _)
    · rw [readFieldWith_of_some (MessageType.find?_of_fields hfind), readKnown_eq_andThen, hget]
      exact andThen_eq_ok.2 ⟨v₁, rest, hstep rest, rfl⟩
    · -- Whatever comes after the first value takes its place.
      have hrun := ih (get_assign_self (p.message index) f v₁ m)
      rw [assign_assign] at hrun
      split at hrun
      · rename_i hbytes
        subst hbytes
        rwa [h.eq_of_nil]
      · exact hrun

/-- The values of the value field of an entry are merged into the entry's value. -/
theorem entry {t : MessageType} (hfind : t.fields.find? f.number = some f) {keyField : Field}
    (hne : f.number ≠ keyField.number) (h : ValueRun p nested budget f v bytes v') (key : MapKey) :
    Run (readEntryField nested budget (readValue p nested budget) keyField f) (key, v) bytes
      (key, v') := by
  induction h with
  | nil v => exact .nil _
  | cons hw hstep _ ih =>
    refine .cons (number_of_find? hfind) hw (fun rest => ?_) ih
    rw [readEntryField_of_value _ hne rfl]
    exact andThen_eq_ok.2 ⟨_, rest, hstep rest, rfl⟩

end ValueRun

/-- A single value that is written has a byte. -/
theorem payload_ne_nil {form : EntryForm} {p : Pool} {N : Nat → Message → Prop} {f : Field}
    {v : Value} (hv : f.kind.Accepts N v) : f.payload (f.kind.body form p v) ≠ [] := by
  unfold Field.payload
  -- A group has at least its end key.
  cases hclosed : f.isClosed with
  | true =>
    simp only [if_true]
    exact List.append_ne_nil_of_right_ne_nil _
      (List.ne_nil_of_length_pos (length_encodeKey_pos f.number .endGroup))
  | false =>
    simp only [Bool.false_eq_true, if_false]
    cases hkind : f.kind with
    | scalar s =>
      rw [hkind] at hv
      exact s.encode_ne_nil hv
    | enum index =>
      rw [hkind] at hv
      cases v with
      | enum n =>
        intro hnil
        have hread := enumCoding_read n []
        rw [show encodeEnum (.enum n) = [] from hnil] at hread
        cases hread
      | _ => exact hv.elim
    | message index => exact encodeDelimited_ne_nil _

/-- There is no message in a key. -/
theorem ofValue_toValue (key : MapKey) : ofValue key.toValue = .empty := by
  cases key <;> rfl

/-- There is nothing to trim in a key. -/
theorem trim_toValue (form : EntryForm) (p : Pool) (kind : Kind) (key : MapKey) :
    key.toValue.trim form p kind = key.toValue := by
  cases key <;> rfl

/-- A field that has a key is no map. -/
theorem arity_ne_map_of_accepts {N : Nat → Message → Prop} {f : Field} (hf : f.Sound) {key : MapKey}
    (h : f.kind.Accepts N key.toValue) (entry : Nat) : f.arity ≠ .map entry := by
  intro harity
  rw [hf.map entry harity] at h
  cases key <;> exact h.elim

/-- The zero of a kind that keys are of is a key. -/
theorem exists_zero_of_accepts (p : Pool) {N : Nat → Message → Prop} {kind : Kind} {key : MapKey}
    (h : kind.Accepts N key.toValue) : ∃ zero, MapKey.ofValue? (p.zero kind) = some zero := by
  cases kind with
  | scalar s => cases key <;> cases s <;> first | exact ⟨_, rfl⟩ | exact h.elim
  | enum index => cases key <;> exact h.elim
  | message index => cases key <;> exact h.elim

/-- A key that is not written is the zero of its kind. -/
theorem toValue_of_not_writesKey {form : EntryForm} {p : Pool} {f : Field} {key : MapKey}
    (h : form.writesKey p f key = false) : key.toValue = p.zero f.kind := by
  unfold EntryForm.writesKey at h
  simp only [Bool.or_eq_false_iff, Bool.not_eq_false'] at h
  exact MapKey.toValue_eq_of_isSame h.2

section Values

variable {form : EntryForm} {p : Pool} {nested : Option FieldReader} {N : Nat → Message → Prop}
  (hlocal : NestedLocal nested) (hback : ReadsBack form p nested N)
include hlocal hback

/-- A nested message or group is read back. -/
theorem readNested_payload {f : Field} (hnumber : 1 ≤ f.number ∧ f.number ≤ maxFieldNumber)
    (harity : ∀ entry, f.arity ≠ .map entry) {index : Nat} (hkind : f.kind = .message index)
    {m : Message} (hm : N index m)
    (hlen : (f.payload (m.encode form p index)).length < 2 ^ 64) (rest : List UInt8) :
    readNested nested f index f.keyType .empty (f.payload (m.encode form p index) ++ rest) =
      .ok (m.trim form p index, rest) := by
  unfold Field.payload Field.keyType at *
  rw [Field.isClosed_of_not_map harity] at *
  -- A group is closed by its end key, any other message by its length.
  cases hgroup : f.isGroup with
  | true =>
    rw [hgroup] at hlen
    simp only [if_true, List.length_append] at hlen
    obtain ⟨step, hstep, hrun⟩ := hback index m hm (by omega)
    have hsteps := hlocal step hstep index
    simp only [if_true]
    rw [hstep, readNested_some, readInside, if_pos hgroup, expecting_self]
    exact hrun.untilEndGroup hsteps hnumber rest
  | false =>
    rw [hgroup] at hlen
    simp only [Bool.false_eq_true, if_false, hkind, Kind.delimit] at hlen ⊢
    have hshort := Nat.lt_of_le_of_lt (length_le_encodeDelimited (m.encode form p index)) hlen
    obtain ⟨step, hstep, hrun⟩ := hback index m hm hshort
    have hsteps := hlocal step hstep index
    rw [hstep, readNested_some, readInside, if_neg (by rw [hgroup]; exact Bool.false_ne_true)]
    show expecting .lengthDelimited .lengthDelimited _ _ = _
    rw [expecting_self]
    exact hrun.delimited hsteps hshort rest

section Fields

variable {f : Field} (hf : f.Sound) (hnumber : 1 ≤ f.number ∧ f.number ≤ maxFieldNumber)
include hf hnumber

/-- A single value is read back, if there is no message that it would be merged into. -/
theorem readSingle_payload (harity : ∀ entry, f.arity ≠ .map entry) {v : Value}
    (hv : f.kind.Accepts N v) (hlen : (f.payload (f.kind.body form p v)).length < 2 ^ 64)
    (old : Value) (hold : ∀ index, f.kind = .message index → ofValue old = .empty)
    (rest : List UInt8) :
    readSingle nested f f.keyType old (f.payload (f.kind.body form p v) ++ rest) =
      .ok (v.trim form p f.kind, rest) := by
  -- The wire type and the bytes of a plain kind are those of its coding; only messages are nested.
  cases hkind : f.kind with
  | scalar s =>
    have hclosed := hf.notClosed fun index => by simp [hkind]
    rw [hkind] at hv hlen
    have htype : f.keyType = s.coding.wireType := by
      rw [Field.keyType, hclosed, hkind, s.wireType_coding]
      rfl
    have hpayload : f.payload ((Kind.scalar s).body form p v) = s.encode v := by
      rw [Field.payload, hclosed, hkind]
      rfl
    rw [hpayload] at hlen ⊢
    rw [readSingle_of_scalar hkind, htype, expecting_self, Value.trim_of_scalar hv]
    exact s.read_encode hv hlen rest
  | enum index =>
    have hclosed := hf.notClosed fun index => by simp [hkind]
    rw [hkind] at hv
    cases v with
    | enum n =>
      have htype : f.keyType = enumCoding.wireType := by
        rw [Field.keyType, hclosed, hkind]
        rfl
      have hpayload : f.payload ((Kind.enum index).body form p (.enum n)) =
          encodeEnum (.enum n) := by
        rw [Field.payload, hclosed, hkind]
        rfl
      rw [hpayload, readSingle_of_enum hkind, htype, expecting_self]
      exact enumCoding_read n rest
    | _ => exact hv.elim
  | message index =>
    rw [hkind] at hv hlen
    cases v with
    | message m =>
      rw [readSingle_of_message hkind, hold index hkind]
      have hread := readNested_payload hlocal hback hnumber harity hkind hv hlen rest
      exact andThen_eq_ok.2 ⟨m.trim form p index, rest, hread, rfl⟩
    | _ => exact hv.elim

variable {budget : Nat}

/-- The value of a single field is read back. -/
theorem valueRun_single (harity : f.arity = .single) {v : Value} (hv : f.kind.Accepts N v)
    (hlen : (f.encodeTagged [f.kind.body form p v]).length < 2 ^ 64) :
    ValueRun p nested budget f f.unsetValue (f.encodeTagged [f.kind.body form p v])
      (v.trim form p f.kind) := by
  have hmap : ∀ entry, f.arity ≠ .map entry := by simp [harity]
  rw [Field.encodeTagged_singleton (hf.isPacked_of_single harity), f.encodeKeyed_eq] at hlen ⊢
  rw [List.length_append] at hlen
  refine .single f.keyType_ne_endGroup fun rest => ?_
  rw [readValue_eq, readValueWith_of_single harity]
  exact readSingle_payload hlocal hback hf hnumber hmap hv (by omega) f.unsetValue
    hf.ofValue_unsetValue rest

/-- The elements of a list that is not packed are read back one by one. -/
theorem valueRun_elements (harity : f.arity = .list) {values : List Value}
    (hvalues : ∀ v ∈ values, f.kind.Accepts N v)
    (hlen : ((values.map (f.kind.body form p)).flatMap f.encodeKeyed).length < 2 ^ 64)
    (acc : List Value) :
    ValueRun p nested budget f (.list acc)
      ((values.map (f.kind.body form p)).flatMap f.encodeKeyed)
      (.list (acc ++ values.map (Value.trim form p f.kind))) := by
  have hmap : ∀ entry, f.arity ≠ .map entry := by simp [harity]
  -- Each element is appended to what the ones before it have made of the list.
  induction values generalizing acc with
  | nil =>
    rw [List.map_nil, List.map_nil, List.append_nil]
    exact .nil _
  | cons v others ih =>
    have hshare : ¬(f.keyType = .lengthDelimited ∧ f.kind.isPackable = true) := by
      rintro ⟨htype, hpackable⟩
      rw [hf.keyType_of_isPackable hpackable] at htype
      exact f.kind.not_delimited_and_isPackable ⟨htype, hpackable⟩
    rw [List.map_cons, List.flatMap_cons, f.encodeKeyed_eq] at hlen ⊢
    simp only [List.length_append] at hlen
    have hrun := ih (fun x hx => hvalues x (List.mem_cons_of_mem _ hx)) (by omega)
      (acc ++ [v.trim form p f.kind])
    rw [List.append_assoc, List.singleton_append, ← List.map_cons] at hrun
    refine .cons f.keyType_ne_endGroup (fun rest => ?_) hrun
    have hread := readSingle_payload hlocal hback hf hnumber hmap (hvalues v List.mem_cons_self)
      (by omega) (.message .empty) (fun _ _ => rfl) rest
    rw [readValue_eq, readValueWith_of_list harity, readElements, if_neg hshare,
      readElement_eq_andThen]
    exact andThen_eq_ok.2 ⟨_, rest, andThen_eq_ok.2 ⟨_, rest, hread, rfl⟩, rfl⟩

/-- Elements that are packed are read one after another. -/
theorem whileLonger_readElement (harity : f.arity = .list) (hpackable : f.kind.isPackable = true)
    {values : List Value} (hvalues : ∀ v ∈ values, f.kind.Accepts N v)
    (hlen : (values.map (f.kind.body form p)).flatten.length < 2 ^ 64) (acc : List Value)
    (rest : List UInt8) :
    whileLonger rest.length (readElement nested f f.kind.wireType) acc
        ((values.map (f.kind.body form p)).flatten ++ rest) =
      .ok (acc ++ values.map (Value.trim form p f.kind), rest) := by
  have hmap : ∀ entry, f.arity ≠ .map entry := by simp [harity]
  -- What is accumulated grows with each element, and the loop goes on since each has a byte.
  induction values generalizing acc with
  | nil =>
    rw [List.map_nil, List.map_nil, List.flatten_nil, List.nil_append, List.append_nil, whileLonger,
      if_pos (Nat.le_refl _)]
  | cons v others ih =>
    have hv := hvalues v List.mem_cons_self
    have hpayload := hf.payload_of_isPackable hpackable (f.kind.body form p v)
    have hsome : f.payload (f.kind.body form p v) ≠ [] := payload_ne_nil hv
    have hpos := List.length_pos_iff.2 hsome
    rw [hpayload] at hpos
    rw [List.map_cons, List.flatten_cons] at hlen ⊢
    rw [List.length_append] at hlen
    have hread : ∀ tail, readElement nested f f.kind.wireType acc (f.kind.body form p v ++ tail) =
        .ok (acc ++ [v.trim form p f.kind], tail) := by
      intro tail
      have hsingle := readSingle_payload hlocal hback hf hnumber hmap hv
        (by rw [hpayload]; omega) (.message .empty) (fun _ _ => rfl) tail
      rw [hpayload, hf.keyType_of_isPackable hpackable] at hsingle
      rw [readElement_eq_andThen]
      exact andThen_eq_ok.2 ⟨_, tail, hsingle, rfl⟩
    rw [whileLonger, if_neg (by simp only [List.length_append]; omega), List.append_assoc, hread]
    simp only
    rw [if_pos (by simp only [List.length_append]; omega),
      ih (fun x hx => hvalues x (List.mem_cons_of_mem _ hx)) (by omega), List.append_assoc]
    rfl

/-- A list is read back, packed or not. -/
theorem valueRun_list (harity : f.arity = .list) {values : List Value}
    (hvalues : ∀ v ∈ values, f.kind.Accepts N v)
    (hlen : (f.encodeTagged (values.map (f.kind.body form p))).length < 2 ^ 64) :
    ValueRun p nested budget f (.list []) (f.encodeTagged (values.map (f.kind.body form p)))
      (.list (values.map (Value.trim form p f.kind))) := by
  unfold Field.encodeTagged at hlen ⊢
  -- Without packing each element has its key; packed, all of them stand behind one key.
  cases hpacked : f.isPacked with
  | false =>
    rw [hpacked, if_neg Bool.false_ne_true] at hlen
    rw [if_neg Bool.false_ne_true]
    exact valueRun_elements hlocal hback hf hnumber harity hvalues hlen []
  | true =>
    rw [hpacked, if_pos rfl, List.length_append] at hlen
    rw [if_pos rfl]
    have hpackable := (hf.packed hpacked).2
    have hcontent := length_le_encodeDelimited (values.map (f.kind.body form p)).flatten
    refine .single (by decide) fun rest => ?_
    have hloop := whileLonger_readElement hlocal hback hf hnumber harity hpackable hvalues
      (by omega) [] rest
    have hread := delimited_encodeDelimited (by omega) hloop
    rw [readValue_eq, readValueWith_of_list harity, readElements, if_pos ⟨rfl, hpackable⟩]
    exact andThen_eq_ok.2 ⟨_, rest, hread, rfl⟩

end Fields

section Entry

variable {budget : Nat} {t : MessageType} (ht : t.Sound) {keyField valueField : Field}
  (hkey : t.fields.find? 1 = some keyField) {e : MapKey × Value}
  (hk : keyField.kind.Accepts N e.1.toValue)
include ht hkey hk

/-- The key of an entry is read back, if it was written, whatever key there was before. -/
theorem run_key (hlen : (form.keyBody p t e.1).length < 2 ^ 64) {start : MapKey}
    (hstart : MapKey.ofValue? (p.zero keyField.kind) = some start) (v : Value) :
    Run (readEntryField nested budget (readValue p nested budget) keyField valueField) (start, v)
      (form.keyBody p t e.1) (e.1, v) := by
  have hkeysound := ht keyField (FieldTable.find?_eq_some_iff.1 hkey).1
  have hmap := arity_ne_map_of_accepts hkeysound hk
  simp only [EntryForm.keyBody, hkey] at hlen ⊢
  cases hwrites : form.writesKey p keyField e.1 with
  | false =>
    -- A key that is left out is the one that reading starts with.
    rw [← toValue_of_not_writesKey hwrites, MapKey.ofValue?_toValue] at hstart
    obtain rfl := Option.some.inj hstart
    exact .nil _
  | true =>
    have hbody : keyField.kind.plainBody e.1.toValue = keyField.kind.body form p e.1.toValue := by
      cases keyField.kind <;> cases e.1 <;> rfl
    rw [hwrites, if_pos rfl, hbody, Field.encodeKeyed_eq, List.length_append] at hlen
    rw [if_pos rfl, hbody, Field.encodeKeyed_eq]
    refine .single (number_of_find? hkey) keyField.keyType_ne_endGroup fun rest => ?_
    have hread := readSingle_payload hlocal hback hkeysound (number_of_find? hkey) hmap hk
      (by omega) start.toValue (fun _ _ => ofValue_toValue start) rest
    rw [trim_toValue] at hread
    rw [readEntryField_of_key _ rfl, readEntryKey]
    refine andThen_eq_ok.2 ⟨_, rest, hread, ?_⟩
    simp only [MapKey.ofValue?_toValue]

/-- An entry of a map is read back if its value is. -/
theorem readMapEntry_encodeDelimited (hvalue : t.fields.find? 2 = some valueField)
    (hrun : (valueField.encodeTagged (e.2.bodies form p valueField.kind)).length < 2 ^ 64 →
      ValueRun p nested budget valueField valueField.unsetValue
        (valueField.encodeTagged (e.2.bodies form p valueField.kind))
        (e.2.trim form p valueField.kind))
    (hlen : (entryBody form p t e).length < 2 ^ 64) (rest : List UInt8) :
    readMapEntry p nested budget (readValue p nested budget) t
        (encodeDelimited (entryBody form p t e) ++ rest) =
      .ok ((e.1, trimPart form p t e.2), rest) := by
  obtain ⟨-, hkeynumber⟩ := FieldTable.find?_eq_some_iff.1 hkey
  obtain ⟨-, hvaluenumber⟩ := FieldTable.find?_eq_some_iff.1 hvalue
  obtain ⟨zero, hzero⟩ := exists_zero_of_accepts p hk
  have hlengths := hlen
  rw [entryBody, List.length_append] at hlengths
  have hfirst : Run (readEntryField nested budget (readValue p nested budget) keyField valueField)
      (zero, valueField.unsetValue) (form.keyBody p t e.1) (e.1, valueField.unsetValue) :=
    run_key hlocal hback ht hkey hk (by omega) hzero valueField.unsetValue
  have hsecond : Run (readEntryField nested budget (readValue p nested budget) keyField valueField)
      (e.1, valueField.unsetValue) (valueBody form p t e.2) (e.1, trimPart form p t e.2) := by
    simp only [valueBody, trimPart, hvalue] at hlengths ⊢
    cases hwrites : form.writesValue valueField e.2 with
    | false => exact .nil _
    | true =>
      rw [hwrites, if_pos rfl] at hlengths
      exact (hrun (by omega)).entry (hvaluenumber ▸ hvalue) (by omega) e.1
  have hboth := hfirst.append hsecond
  have hread := local_readEntryField hlocal (local_readValue hlocal p budget) budget keyField
    valueField
  unfold readMapEntry
  simp only [hkey, hvalue, hzero]
  exact hboth.delimited hread hlen rest

end Entry

variable {budget : Nat}

omit hlocal hback in
/-- The entries of a map are read back one by one, if each of them is. -/
theorem valueRun_map {f : Field} (hf : f.Sound) {entry : Nat} (harity : f.arity = .map entry)
    {entries : List (MapKey × Value)}
    (hentries : ∀ e ∈ entries, (entryBody form p (p.message entry) e).length < 2 ^ 64 →
      ∀ rest, readMapEntry p nested budget (readValue p nested budget) (p.message entry)
          (encodeDelimited (entryBody form p (p.message entry) e) ++ rest) =
        .ok ((e.1, trimPart form p (p.message entry) e.2), rest))
    (hlen : (f.encodeTagged (entries.map (entryBody form p (p.message entry)))).length < 2 ^ 64)
    (acc : List (MapKey × Value)) :
    ValueRun p nested budget f (.map acc)
      (f.encodeTagged (entries.map (entryBody form p (p.message entry))))
      (.map (Column.insertAll
        (entries.map fun e => (e.1, trimPart form p (p.message entry) e.2)) acc)) := by
  have hkind : f.kind = .message entry := hf.map entry harity
  -- Entries are messages, so a map is not packed, and they have a length.
  have hpacked : f.isPacked = false := by
    cases hpacked : f.isPacked with
    | false => rfl
    | true => exact absurd hkind (Kind.ne_message_of_isPackable (hf.packed hpacked).2 entry)
  have hkeyed : ∀ body, f.encodeKeyed body =
      encodeKey f.number .lengthDelimited ++ encodeDelimited body := by
    intro body
    rw [Field.encodeKeyed, Field.isClosed_of_map harity, hkind]
    rfl
  unfold Field.encodeTagged at hlen ⊢
  rw [hpacked, if_neg Bool.false_ne_true] at hlen ⊢
  -- Each entry is put into what there is, so the induction is for all maps.
  induction entries generalizing acc with
  | nil => exact .nil _
  | cons e others ih =>
    rw [List.map_cons, List.flatMap_cons, hkeyed] at hlen ⊢
    simp only [List.length_append] at hlen
    have hcontent := length_le_encodeDelimited (entryBody form p (p.message entry) e)
    refine .cons (by decide) (fun rest => ?_)
      (ih (fun x hx => hentries x (List.mem_cons_of_mem _ hx)) (by omega)
        (MapKey.insert e.1 (trimPart form p (p.message entry) e.2) acc))
    have hread := hentries e List.mem_cons_self (by omega) rest
    rw [readValue_eq, readValueWith_of_map harity]
    exact andThen_eq_ok.2 ⟨_, rest, hread, rfl⟩

/-- What is written for a value that a field can have is merged back into an unset one. -/
theorem valueRun_of_accepts (hsound : p.Sound) {f : Field} {v : Value} (hv : f.Accepts p N v)
    (hf : f.Sound) (hnumber : 1 ≤ f.number ∧ f.number ≤ maxFieldNumber)
    (hlen : (f.encodeTagged (v.bodies form p f.kind)).length < 2 ^ 64) :
    ValueRun p nested budget f f.unsetValue (f.encodeTagged (v.bodies form p f.kind))
      (v.trim form p f.kind) := by
  induction hv with
  | single harity hv =>
    rw [bodies_of_accepts hv] at hlen ⊢
    exact valueRun_single hlocal hback hf hnumber harity hv hlen
  | @list f values harity hvalues =>
    have hunset : f.unsetValue = .list [] := by rw [Field.unsetValue, harity]
    rw [Value.bodies, listBodies_of_accepts hvalues] at hlen ⊢
    rw [hunset, Value.trim, trimList_eq_map]
    exact valueRun_list hlocal hback hf hnumber harity hvalues hlen
  | @map f entry entries harity hkeys hdeclared _ ih =>
    have hunset : f.unsetValue = .map [] := by rw [Field.unsetValue, harity]
    simp only [Value.bodies, hf.map entry harity, mapBodies_eq_map] at hlen ⊢
    rw [hunset, Value.trim, trimMap_eq_map]
    refine valueRun_map hf harity (fun e he hshort rest => ?_) hlen []
    obtain ⟨keyField, hkey, hk⟩ := hkeys e he
    obtain ⟨valueField, hvalue⟩ := Option.isSome_iff_exists.1 (hdeclared e he)
    have hvaluesound := hsound.message entry valueField (FieldTable.find?_eq_some_iff.1 hvalue).1
    exact readMapEntry_encodeDelimited hlocal hback (hsound.message entry) hkey hk hvalue
      (ih e he valueField hvalue hvaluesound (number_of_find? hvalue)) hshort rest

end Values

end Message

end ColumnarRecords
