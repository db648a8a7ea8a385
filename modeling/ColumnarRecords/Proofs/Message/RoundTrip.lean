import ColumnarRecords.Proofs.Descriptor.Loading
import ColumnarRecords.Proofs.Message.Written

/-!
# Messages are read back

A message that is written is read back, but for what does not count as set (`Message.run_of_isOf`).
All of its fields that are set are written, one after another (`Message.run_message`), and as none
of them clears another, it does not matter in which order they are assigned
(`Message.assignAll_eq_trim`): the rest of a message may be merged into one that has some of the
fields already. Nested messages are read back by induction on how deep they are.
-/

namespace ColumnarRecords

open Descriptor Wire

/-- A list that counts as set has an element, unless it has presence. -/
theorem ne_nil_of_isSet_list {f : Field} (harity : f.arity = .list) {values : List Value}
    (hset : f.isSet (.list values) = true) (hsome : f.HoldsSome (.list values)) : values ≠ [] := by
  rintro rfl
  unfold Field.isSet at hset
  cases hpresence : f.hasPresence with
  | true => exact (hsome hpresence).1 rfl
  | false =>
    rw [hpresence, harity] at hset
    exact Bool.false_ne_true hset

/-- A map that counts as set has an entry, unless it has presence. -/
theorem ne_nil_of_isSet_map {f : Field} {entry : Nat} (harity : f.arity = .map entry)
    {entries : List (MapKey × Value)} (hset : f.isSet (.map entries) = true)
    (hsome : f.HoldsSome (.map entries)) : entries ≠ [] := by
  rintro rfl
  unfold Field.isSet at hset
  cases hpresence : f.hasPresence with
  | true => exact (hsome hpresence).2 rfl
  | false =>
    rw [hpresence, harity] at hset
    exact Bool.false_ne_true hset

/-- A value that counts as set has a body. -/
theorem Descriptor.Field.Sound.bodies_ne_nil {f : Field} (hf : f.Sound) {form : EntryForm}
    {p : Pool} {N : Nat → Message → Prop} {v : Value} (hv : f.Accepts p N v)
    (hset : f.isSet v = true) (hsome : f.HoldsSome v) : v.bodies form p f.kind ≠ [] := by
  cases hv with
  | single harity hv =>
    rw [bodies_of_accepts hv]
    exact List.cons_ne_nil _ _
  | list harity hvalues =>
    rw [Value.bodies, listBodies_of_accepts hvalues]
    exact fun h => ne_nil_of_isSet_list harity hset hsome (List.map_eq_nil_iff.1 h)
  | map harity =>
    simp only [Value.bodies, hf.map _ harity, mapBodies_eq_map]
    exact fun h => ne_nil_of_isSet_map harity hset hsome (List.map_eq_nil_iff.1 h)

/-- A field that is written with a body has a byte. -/
theorem Descriptor.Field.encodeTagged_ne_nil {f : Field} {bodies : List (List UInt8)}
    (h : bodies ≠ []) : f.encodeTagged bodies ≠ [] := by
  have hkey : ∀ w, encodeKey f.number w ≠ [] := fun w =>
    List.ne_nil_of_length_pos (Message.length_encodeKey_pos f.number w)
  obtain ⟨body, hbody⟩ := List.exists_mem_of_ne_nil bodies h
  unfold encodeTagged
  split
  · exact List.append_ne_nil_of_left_ne_nil (hkey _) _
  · intro hnil
    have hkeyed := List.flatMap_eq_nil_iff.1 hnil body hbody
    rw [encodeKeyed_eq] at hkeyed
    exact hkey _ (List.append_eq_nil_iff.1 hkeyed).1

namespace Message

/-- The fields of a message of the type at a position that are set, with their values trimmed. -/
def setFields (form : EntryForm) (p : Pool) (index : Nat) (m : Message) : List (Field × Value) :=
  (m.fields (p.message index)).map fun x => (x.1, x.2.trim form p x.1.kind)

section Conforms

variable {form : EntryForm} {p : Pool} {allowed : Field → Value → Prop}
  {N : Nat → Message → Prop} {index : Nat}
  {m : Message}

/-- The empty message conforms to every type. -/
theorem conforms_empty : Message.empty.Conforms p allowed N index :=
  ⟨.nil, fun _ hx => absurd hx List.not_mem_nil, fun _ hx => absurd hx List.not_mem_nil⟩

/-- A message of one field conforms if the field can have the value. -/
theorem conforms_singleton {number : Nat} {v : Value}
    (h : ∃ f, (p.message index).fields.find? number = some f ∧ f.Accepts p N v ∧ allowed f v) :
    Message.Conforms p allowed N index ⟨[(number, .value v)]⟩ := by
  obtain ⟨f, hfind, hv, hallowed⟩ := h
  refine ⟨List.pairwise_singleton _ _, fun x hx => ?_, fun x hx g hg y hy => ?_⟩
  · obtain rfl := List.mem_singleton.1 hx
    exact ⟨f, v, hfind, rfl, hv, hallowed⟩
  · obtain rfl := List.mem_singleton.1 hx
    obtain rfl := List.mem_singleton.1 hy
    obtain ⟨-, hnumber⟩ := FieldTable.find?_eq_some_iff.1 hg
    exact hnumber ▸ number_notMem_siblings _ g

/-- A message conforms without some of its entries. -/
theorem Conforms.of_sublist {m' : Message} (h : m.Conforms p allowed N index)
    (hsub : m'.entries.Sublist m.entries) : m'.Conforms p allowed N index where
  ascending := h.ascending.sublist hsub
  field x hx := h.field x (hsub.subset hx)
  oneof x hx f hf y hy := h.oneof x (hsub.subset hx) f hf y (hsub.subset hy)

/-- The field of an entry of a message. -/
theorem Conforms.exists_field (h : m.Conforms p allowed N index) {n : Nat} {e : Entry}
    (hmem : (n, e) ∈ m.entries) :
    ∃ f v, (p.message index).fields.find? f.number = some f ∧ n = f.number ∧ e = .value v ∧
      f.Accepts p N v ∧ allowed f v := by
  obtain ⟨f, v, hfind, hvalue, haccepts⟩ := h.field (n, e) hmem
  obtain ⟨-, hnumber⟩ := FieldTable.find?_eq_some_iff.1 hfind
  subst hnumber
  exact ⟨f, v, hfind, rfl, hvalue, haccepts⟩

/-- The fields that are set are those of the entries that count as set. -/
theorem Conforms.mem_setFields (h : m.Conforms p allowed N index) {x : Field × Value} :
    x ∈ m.setFields form p index ↔
      (p.message index).fields.find? x.1.number = some x.1 ∧
        ∃ v, (x.1.number, .value v) ∈ m.entries ∧ x.1.isSet v = true ∧
          v.trim form p x.1.kind = x.2 := by
  obtain ⟨f, u⟩ := x
  unfold setFields fields fieldsOf
  constructor
  · intro hx
    obtain ⟨⟨g, v⟩, hmem, hx⟩ := List.mem_map.1 hx
    obtain ⟨rfl, rfl⟩ := Prod.mk.inj hx
    obtain ⟨⟨n, e⟩, hentry, hfield⟩ := List.mem_filterMap.1 hmem
    obtain ⟨g', v', hfind, rfl, rfl, -⟩ := h.exists_field hentry
    simp only [hfind, Option.bind_some] at hfield
    split at hfield
    · rename_i hset
      obtain ⟨rfl, rfl⟩ := Prod.mk.inj (Option.some.inj hfield)
      exact ⟨hfind, v', hentry, hset, rfl⟩
    · cases hfield
  · rintro ⟨hfind, v, hentry, hset, hvalue⟩
    refine List.mem_map.2 ⟨(f, v), List.mem_filterMap.2 ⟨_, hentry, ?_⟩, Prod.ext rfl hvalue⟩
    simp only [hfind, Option.bind_some, hset, if_true]

/-- Of the fields that are set none clears another. -/
theorem Conforms.notMem_siblings (h : m.Conforms p allowed N index) {x y : Field × Value}
    (hx : x ∈ m.setFields form p index) (hy : y ∈ m.setFields form p index) :
    y.1.number ∉ (p.message index).siblings x.1 := by
  obtain ⟨hfind, v, hentry, -⟩ := h.mem_setFields.1 hx
  obtain ⟨-, u, hentry', -⟩ := h.mem_setFields.1 hy
  exact h.oneof _ hentry x.1 hfind _ hentry'

/-- Trimming keeps a message in order. -/
theorem ascending_trim (h : m.Ascending) : (m.trim form p index).Ascending := by
  obtain ⟨entries⟩ := m
  unfold Ascending trim
  rw [trimEntries_eq_filterMap]
  refine List.Pairwise.filterMap _ ?_ h
  intro a b hlt x hx y hy
  obtain ⟨e, -, rfl⟩ := Option.map_eq_some_iff.1 hx
  obtain ⟨d, -, rfl⟩ := Option.map_eq_some_iff.1 hy
  exact hlt

/-- A trimmed message holds the fields that are set. -/
theorem Conforms.find?_trim (h : m.Conforms p allowed N index) (n : Nat) (e : Entry) :
    (m.trim form p index).find? n = some e ↔
      ∃ x ∈ m.setFields form p index, x.1.number = n ∧ .value x.2 = e := by
  have hmem : (n, e) ∈ (m.trim form p index).entries ↔
      ∃ d, (n, d) ∈ m.entries ∧ d.trim form p (p.message index) n = some e := by
    obtain ⟨entries⟩ := m
    unfold trim
    rw [trimEntries_eq_filterMap, List.mem_filterMap]
    constructor
    · rintro ⟨⟨k, d⟩, hd, hk⟩
      obtain ⟨d', hd', hk⟩ := Option.map_eq_some_iff.1 hk
      obtain ⟨rfl, rfl⟩ := Prod.mk.inj hk
      exact ⟨d, hd, hd'⟩
    · rintro ⟨d, hd, hd'⟩
      exact ⟨(n, d), hd, by rw [hd']; rfl⟩
  rw [(ascending_trim h.ascending).find?_eq_some_iff, hmem]
  constructor
  · rintro ⟨d, hd, htrim⟩
    obtain ⟨f, v, hfind, rfl, rfl, -⟩ := h.exists_field hd
    simp only [Entry.trim, MessageType.find?_of_fields hfind] at htrim
    split at htrim
    · rename_i hset
      exact ⟨(f, v.trim form p f.kind), h.mem_setFields.2 ⟨hfind, v, hd, hset, rfl⟩, rfl,
        Option.some.inj htrim⟩
    · cases htrim
  · rintro ⟨x, hx, rfl, rfl⟩
    obtain ⟨hfind, v, hentry, hset, hvalue⟩ := h.mem_setFields.1 hx
    refine ⟨.value v, hentry, ?_⟩
    simp only [Entry.trim, MessageType.find?_of_fields hfind, hset, if_true, hvalue]

/-- The fields of a message that are set, assigned in any order, are the message trimmed. -/
theorem Conforms.assignAll_eq_trim (h : m.Conforms p allowed N index)
    {fields : List (Field × Value)} (hfields : ∀ x, x ∈ fields ↔ x ∈ m.setFields form p index)
    (hdistinct : fields.Pairwise fun x y => x.1.number ≠ y.1.number) :
    empty.assignAll (p.message index) fields = m.trim form p index := by
  -- Both are in order, so it is enough that they hold the same under every number.
  refine Ascending.ext (ascending_assignAll List.Pairwise.nil) (ascending_trim h.ascending) ?_
  intro n e
  have hkeep : ∀ x ∈ fields, ∀ y ∈ fields, y.1.number ∉ (p.message index).siblings x.1 :=
    fun x hx y hy => h.notMem_siblings ((hfields x).1 hx) ((hfields y).1 hy)
  refine (find?_assignAll hdistinct hkeep (fun _ _ => rfl) (fun _ _ _ _ => rfl) n e).trans ?_
  rw [h.find?_trim]
  constructor
  · rintro (⟨x, hx, hx'⟩ | hnone)
    · exact ⟨x, (hfields x).1 hx, hx'⟩
    · cases hnone
  · rintro ⟨x, hx, hx'⟩
    exact .inl ⟨x, (hfields x).2 hx, hx'⟩

/-- The fields of a message that are set have different numbers. -/
theorem Conforms.pairwise_setFields (h : m.Conforms p allowed N index) :
    (m.setFields form p index).Pairwise fun x y => x.1.number ≠ y.1.number := by
  unfold setFields fields fieldsOf
  refine List.Pairwise.map _ (fun _ _ hne => hne) (List.Pairwise.filterMap _ ?_ h.ascending)
  rintro ⟨n, e⟩ ⟨k, d⟩ hlt x hx y hy
  have hnumber : ∀ {n : Nat} {v : Value} {x : Field × Value},
      (((p.message index).fields.find? n).bind fun f =>
        if f.isSet v then some (f, v) else none) = some x → x.1.number = n := by
    intro n v x hx
    obtain ⟨f, hfind, hx⟩ := Option.bind_eq_some_iff.1 hx
    split at hx
    · obtain rfl := Option.some.inj hx
      exact (FieldTable.find?_eq_some_iff.1 hfind).2
    · cases hx
  cases e with
  | unknown values => cases hx
  | value v =>
    cases d with
    | unknown values => cases hy
    | value u =>
      rw [hnumber hx, hnumber hy]
      exact Nat.ne_of_lt hlt

end Conforms

section Run

variable {form : EntryForm} {p : Pool} (hsound : p.Sound) {nested : Option FieldReader}
  {N : Nat → Message → Prop} (hlocal : NestedLocal nested) (hback : ReadsBack form p nested N)
  (budget : Nat) {index : Nat}
include hsound hlocal hback

/-- A field that is set is read back into a message that does not hold it. -/
theorem run_field {f : Field} (hfind : (p.message index).fields.find? f.number = some f)
    {v : Value} (hv : f.Accepts p N v) (hset : f.isSet v = true) (hsome : f.HoldsSome v)
    (hlen : (f.encodeTagged (v.bodies form p f.kind)).length < 2 ^ 64) {m : Message}
    (hfresh : m.find? f.number = none) :
    Run (readFieldWith p nested budget index) m (f.encodeTagged (v.bodies form p f.kind))
      (m.assign (p.message index) f (v.trim form p f.kind)) := by
  have hf := hsound.message index f (FieldTable.find?_eq_some_iff.1 hfind).1
  have hvalue : ValueRun p nested budget f _ _ _ :=
    valueRun_of_accepts hlocal hback hsound hv hf (number_of_find? hfind) hlen
  have hrun := hvalue.assigned hfind (get_of_fresh hfresh)
  -- Without a byte there would be nothing to assign.
  have hbodies : v.bodies form p f.kind ≠ [] := hf.bodies_ne_nil hv hset hsome
  rwa [if_neg (Field.encodeTagged_ne_nil hbodies)] at hrun

/-- The entries of a message are read back into one that has none of them. -/
theorem run_entries {entries : List (Nat × Entry)}
    (hm : Message.Conforms p Field.HoldsSome N index ⟨entries⟩)
    (hlen : (encodeEntries form p (p.message index) true entries).length < 2 ^ 64) {m : Message}
    (hfresh : ∀ x ∈ entries, m.find? x.1 = none) :
    Run (readFieldWith p nested budget index) m
      (encodeEntries form p (p.message index) true entries)
      (m.assignAll (p.message index) (setFields form p index ⟨entries⟩)) := by
  induction entries generalizing m with
  | nil => exact .nil m
  | cons x rest ih =>
    obtain ⟨n, e⟩ := x
    have htail : Message.Conforms p Field.HoldsSome N index ⟨rest⟩ :=
      hm.of_sublist (List.sublist_cons_self _ _)
    obtain ⟨f, v, hfind, rfl, rfl, haccepts, hsome⟩ := hm.exists_field List.mem_cons_self
    have hhere := hfresh _ List.mem_cons_self
    -- The entries after this one stay fresh while it is read, as their numbers are higher.
    have hothers : ∀ x ∈ rest, m.find? x.1 = none ∧ x.1 ≠ f.number := by
      intro x hx
      refine ⟨hfresh x (List.mem_cons_of_mem _ hx), ?_⟩
      exact Nat.ne_of_gt ((List.pairwise_cons.1 hm.ascending).1 x hx)
    have hbytes : encodeEntries form p (p.message index) true ((f.number, .value v) :: rest) =
        (if f.isSet v then f.encodeTagged (v.bodies form p f.kind) else []) ++
          encodeEntries form p (p.message index) true rest := by
      rw [encodeEntries, hfind, Entry.encode, MessageType.find?_of_fields hfind]
      rfl
    have hfields : setFields form p index ⟨(f.number, .value v) :: rest⟩ =
        (if f.isSet v then [(f, v.trim form p f.kind)] else []) ++ setFields form p index ⟨rest⟩ := by
      unfold setFields fields fieldsOf
      rw [List.filterMap_cons]
      simp only [hfind, Option.bind_some]
      cases f.isSet v <;> rfl
    rw [hbytes, List.length_append] at hlen
    rw [hbytes, hfields]
    -- A field that does not count as set is not written, nor is it one of those to be assigned.
    cases hset : f.isSet v with
    | false => exact ih htail (by omega) fun x hx => (hothers x hx).1
    | true =>
      rw [hset, if_pos rfl] at hlen
      have hfirst := run_field hsound hlocal hback budget hfind haccepts hset
        hsome (by omega) hhere
      refine hfirst.append (ih htail (by omega) fun x hx => ?_)
      exact find?_assign_eq_none (hothers x hx).1 (hothers x hx).2 _

omit hsound hlocal hback in
/-- A message that conforms holds nothing but fields. -/
theorem encodeEntries_false {entries : List (Nat × Entry)}
    (hm : Message.Conforms p Field.HoldsSome N index ⟨entries⟩) :
    encodeEntries form p (p.message index) false entries = [] := by
  induction entries with
  | nil => rfl
  | cons x rest ih =>
    obtain ⟨n, e⟩ := x
    obtain ⟨f, v, hfind, rfl, rfl, -⟩ := hm.exists_field List.mem_cons_self
    have htail : Message.Conforms p Field.HoldsSome N index ⟨rest⟩ :=
      hm.of_sublist (List.sublist_cons_self _ _)
    rw [encodeEntries, hfind, ih htail]
    rfl

/-- A message is read back into one that has none of its fields, as all of those that are set. -/
theorem run_message {m : Message} (hm : m.Conforms p Field.HoldsSome N index)
    (hlen : (m.encode form p index).length < 2 ^ 64) {m' : Message}
    (hfresh : ∀ x ∈ m.entries, m'.find? x.1 = none) :
    Run (readFieldWith p nested budget index) m' (m.encode form p index)
      (m'.assignAll (p.message index) (m.setFields form p index)) := by
  obtain ⟨entries⟩ := m
  rw [encode, encodeEntries_false hm, List.append_nil] at hlen ⊢
  exact run_entries hsound hlocal hback budget hm hlen hfresh

/-- A message is read back from nothing as itself, trimmed. -/
theorem run_message_empty {m : Message} (hm : m.Conforms p Field.HoldsSome N index)
    (hlen : (m.encode form p index).length < 2 ^ 64) :
    Run (readFieldWith p nested budget index) .empty (m.encode form p index)
      (m.trim form p index) := by
  have hfresh : ∀ x ∈ m.entries, Message.empty.find? x.1 = none := fun _ _ => rfl
  have hrun := run_message hsound hlocal hback budget hm hlen hfresh
  rwa [hm.assignAll_eq_trim (fun _ => Iff.rfl) hm.pairwise_setFields] at hrun

end Run

section Depth

variable {form : EntryForm} {p : Pool} (hsound : p.Sound)
include hsound

/-- A message that is nested as deep as the reader goes is read back as itself, trimmed. -/
theorem run_of_isOf {depth index : Nat} {m : Message} (hm : m.IsOf p Field.HoldsSome depth index)
    (hlen : (m.encode form p index).length < 2 ^ 64) :
    Run (readField p depth index) .empty (m.encode form p index) (m.trim form p index) := by
  -- What is nested at a depth is read by the reader one level further in, which the hypothesis says
  -- reads it back; at the innermost level there is nothing nested.
  induction depth generalizing index m with
  | zero =>
    exact run_message_empty hsound nestedLocal_none (fun _ _ h => h.elim) 0 hm
      hlen
  | succ depth ih =>
    refine run_message_empty hsound (nestedLocal_readField p depth) ?_ (depth + 1) hm hlen
    exact fun index m hm hlen => ⟨_, rfl, ih hm hlen⟩

/-- What may be nested inside a message is read back. -/
theorem readsBack_readField (depth : Nat) :
    ReadsBack form p (some (readField p depth)) (IsOf p Field.HoldsSome depth) :=
  fun _ _ hm hlen => ⟨_, rfl, run_of_isOf hsound hm hlen⟩

/-- A message that is nested as deep as the limit allows is decoded from its encoded form. -/
theorem decode_encode_of_isOf {index : Nat} {m : Message}
    (hm : m.IsOf p Field.HoldsSome nestingLimit index)
    (hlen : (m.encode form p index).length < 2 ^ 64) :
    decode p index (m.encode form p index) = .ok (m.trim form p index) := by
  have hrun := run_of_isOf hsound hm hlen
  rw [decode, merge_eq_map, mergeFields_of_run hrun]
  rfl

/-- A message that may be nested inside another is read back by itself too. -/
theorem decode_encode {index : Nat} {m : Message} (hm : m.IsOf p Field.HoldsSome 99 index)
    (hlen : (m.encode form p index).length < 2 ^ 64) :
    decode p index (m.encode form p index) = .ok (m.trim form p index) := by
  have hrun := (run_of_isOf hsound hm hlen).of_agree (readField_agree p 99 index)
  rw [decode, merge_eq_map, mergeFields_of_run hrun]
  rfl

end Depth

end Message

end ColumnarRecords
