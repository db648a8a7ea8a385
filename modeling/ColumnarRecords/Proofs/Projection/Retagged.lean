import ColumnarRecords.Projection.Materialize
import ColumnarRecords.Proofs.Column.Values
import ColumnarRecords.Proofs.Descriptor.Loading
import ColumnarRecords.Proofs.Projection.Exact
import ColumnarRecords.Proofs.Wire.RoundTrip

/-!
# Records are encoded messages without keys

The known columns of a record hold the values of an encoded message, and the column of all other
fields the rest of it. Putting the keys back before the values gives an encoded message
(`Plan.retagged`), and building the message of the record is decoding this one
(`Plan.materialize_eq_ok_iff`): the columns' own decoding of lists, maps, enums and nested messages
does what merging fields does, whatever the values hold.

The proof goes from one value (`Column.agree_value`) to the values of a column
(`Column.agree_values`) to all known columns (`Plan.agree_known`). What is decoded by itself may be
nested deeper than what is merged in its place, so the outcomes are compared by `Wire.Agree`.
-/

namespace ColumnarRecords

open Descriptor Wire Message

/-- A value with the key of its field before it. -/
def Descriptor.Field.retag (f : Field) (v : List UInt8) : List UInt8 :=
  encodeKey f.number f.kind.wireType ++ v

namespace Column

/-- A nested message that is merged in its place is the one that its content is by itself. -/
theorem agree_readNested (p : Pool) {f : Field} (hgroup : f.isGroup = false) (index : Nat)
    {v content : List UInt8} (hv : Wire.readDelimited v = .ok (content, [])) (rest : List UInt8) :
    Agree Eq
      (readNested (some (Message.readField p 99)) f index .lengthDelimited .empty (v ++ rest))
      ((decodeMessage p index content).map fun m => (m, rest)) := by
  rw [readNested_some, readInside, if_neg (by rw [hgroup]; exact Bool.false_ne_true),
    expecting_self]
  -- In its place the message has one level less for what is nested in it than by itself.
  have hplace : Agree Eq
      (delimited (keyed (Message.readField p 99 index)) .empty (v ++ rest))
      (delimited (keyed (Message.readField p nestingLimit index)) .empty (v ++ rest)) := by
    refine Agree.delimited (R := Eq) (fun m m' input hm => agree_keyed ?_ hm input) rfl _
    rintro m _ n w input rfl
    exact readField_agree p 99 index m n w input
  have hself := hplace.of_toOption_eq (delimited_append
    (local_keyed (local_readField p nestingLimit index))
    (consumes_keyed (local_readField p nestingLimit index)) hv .empty rest)
  refine hself.of_toOption_eq ?_
  unfold decodeMessage Message.decode merge
  cases whileLonger 0 (keyed (Message.readField p nestingLimit index)) .empty content <;> rfl

/-- A single value that is merged in its place into nothing is the one that a column holds. -/
theorem agree_readSingle (p : Pool) {f : Field} (hgroup : f.isGroup = false) {v : List UInt8}
    (hv : IsValue f.kind.wireType v) {old : Value}
    (hold : ∀ index, f.kind = .message index → ofValue old = .empty) (rest : List UInt8) :
    Agree Eq
      (Message.readSingle (some (Message.readField p 99)) f f.kind.wireType old (v ++ rest))
      (((readValue p f.kind v).map Prod.fst).map fun x => (x, rest)) := by
  -- Of the plain kinds the two readers differ in their faults only; messages are nested.
  cases hkind : f.kind with
  | scalar s =>
    rw [hkind] at hv
    have hcoded : IsValue s.coding.wireType v := s.wireType_coding ▸ hv
    rw [readSingle_of_scalar hkind,
      show (Kind.scalar s).wireType = s.coding.wireType from s.wireType_coding.symm, expecting_self]
    refine (Agree.refl _).of_toOption_eq ((read_append s.coding hcoded rest).trans ?_)
    show _ = (((readCoded s.coding v).map Prod.fst).map fun x => (x, rest)).toOption
    cases readCoded s.coding v <;> rfl
  | enum index =>
    rw [hkind] at hv
    rw [readSingle_of_enum hkind]
    show Agree Eq (expecting enumCoding.wireType enumCoding.wireType enumCoding.read (v ++ rest)) _
    rw [expecting_self]
    refine (Agree.refl _).of_toOption_eq ((read_append enumCoding hv rest).trans ?_)
    show _ = (((readCoded enumCoding v).map Prod.fst).map fun x => (x, rest)).toOption
    cases readCoded enumCoding v <;> rfl
  | message index =>
    rw [hkind] at hv
    obtain ⟨content, hc⟩ := hv
    rw [readSingle_of_message hkind, hold index hkind]
    have hvalue := (agree_readNested p hgroup index hc rest).map_both Value.message
    refine hvalue.of_toOption_eq ?_
    have hread := readDelimited_append hc []
    rw [List.append_nil] at hread
    simp only [readValue, hread]
    cases decodeMessage p index content <;> rfl

/-- The whole of one value is this value. -/
theorem readWhole_value {α : Type} {read : Reader α} {v : List UInt8} (h : Reads read v) :
    readWhole read v = (read v).map Prod.fst := by
  have hself := h []
  rw [List.append_nil] at hself
  unfold readWhole
  rw [hself]
  cases read v <;> rfl

/-- What has to hold of a known field for its column to be read as merging reads it. -/
structure IsMerged (p : Pool) (t : MessageType) (f : Field) : Prop where
  /-- The field is one of the type's. -/
  find : t.fields.find? f.number = some f
  /-- The field is as a descriptor set declares it. -/
  sound : f.Sound
  /-- The field is no group. -/
  notGroup : f.isGroup = false
  /-- The entries of a map are as the language makes them. -/
  entry : ∀ index, f.arity = .map index → (p.message index).IsEntry p

section Value

variable {p : Pool} {index : Nat} {f : Field} (hf : IsMerged p (p.message index) f)
  {v : List UInt8} (hv : IsValue f.kind.wireType v) {m : Message} (rest : List UInt8)
include hf hv

/-- A single value is merged into a message that has none yet as a column of it is decoded. -/
theorem agree_readKnown_of_single (harity : f.arity = .single) (hfresh : m.find? f.number = none) :
    Agree Eq
      (readKnown p (some (Message.readField p 99)) nestingLimit (p.message index) f m
        f.kind.wireType (v ++ rest))
      ((decodeField p (p.message index) f v m).map fun m => (m, rest)) := by
  have hvalue := (agree_readSingle p hf.notGroup hv hf.sound.ofValue_unsetValue rest).map_both
    fun x => m.assign (p.message index) f x
  rw [readKnown_of_single harity, get_of_fresh hfresh]
  refine hvalue.of_toOption_eq ?_
  rw [decodeField_eq, readField_eq_readWhole harity hf.notGroup,
    readWhole_value (reads_readValue p f.kind hv)]

/-- An element of a list is merged as a column of it is decoded. -/
theorem agree_readKnown_of_list (harity : f.arity = .list) :
    Agree Eq
      (readKnown p (some (Message.readField p 99)) nestingLimit (p.message index) f m
        f.kind.wireType (v ++ rest))
      ((decodeField p (p.message index) f v m).map fun m => (m, rest)) := by
  have hsingle := agree_readSingle p hf.notGroup hv
    (fun _ _ => (rfl : ofValue (.message .empty) = .empty)) rest
  have hvalue := (hsingle.map_both fun x => listOf m f ++ [x]).map_both
    fun values => m.assign (p.message index) f (.list values)
  rw [readKnown_of_list harity, readElements, if_neg f.kind.not_delimited_and_isPackable,
    readElement_eq_andThen]
  refine hvalue.of_toOption_eq ?_
  rw [decodeField_eq, readField, harity]
  simp only [hf.notGroup, Bool.false_eq_true, if_false]
  rw [readAll_value (reads_readValue p f.kind hv) hv.ne_nil]
  cases readValue p f.kind v <;> rfl

/-- An entry of a map is merged as a column of it is decoded. -/
theorem agree_readKnown_of_map {entry : Nat} (harity : f.arity = .map entry) :
    Agree Eq
      (readKnown p (some (Message.readField p 99)) nestingLimit (p.message index) f m
        f.kind.wireType (v ++ rest))
      ((decodeField p (p.message index) f v m).map fun m => (m, rest)) := by
  have hkind : f.kind = .message entry := hf.sound.map entry harity
  rw [hkind] at hv ⊢
  have hnonempty : v ≠ [] := IsValue.ne_nil (w := .lengthDelimited) hv
  have hreads := reads_readEntry p entry hv
  obtain ⟨content, hc⟩ := hv
  have hread := readEntry_append p entry hc []
  rw [List.append_nil] at hread
  have hentry : Agree Eq
      (readMapEntry p (some (Message.readField p 99)) nestingLimit
        (Message.readValue p (some (Message.readField p 99)) nestingLimit) (p.message entry)
        (v ++ rest))
      (((decodeMessage p entry content).bind (entryOf (p.message entry))).map
        fun e => (e, rest)) := by
    refine (agree_readMapEntry_decode (hf.entry entry harity) hc rest).of_toOption_eq ?_
    unfold decodeMessage
    cases Message.decode p entry content with
    | error fault => rfl
    | ok inner =>
      simp only [Except.toOption, Option.bind_some, Except.bind, entryOf]
      cases Message.entryOf (p.message entry) inner <;> rfl
  have hvalue := hentry.map_both fun e =>
    m.assign (p.message index) f (.map (MapKey.insert e.1 e.2 (mapOf m f)))
  rw [readKnown_of_map harity]
  refine hvalue.of_toOption_eq ?_
  rw [decodeField_eq, readField, harity]
  simp only
  rw [readAll_value hreads hnonempty, hread]
  cases (decodeMessage p entry content).bind (entryOf (p.message entry)) <;> rfl

/-- One value with its key is merged as a column of this value is decoded. -/
theorem agree_value (hfresh : f.arity = .single → m.find? f.number = none) :
    Agree Eq (keyed (Message.readField p nestingLimit index) m (f.retag v ++ rest))
      ((decodeField p (p.message index) f v m).map fun m => (m, rest)) := by
  have hnumber : 1 ≤ f.number ∧ f.number ≤ maxFieldNumber :=
    (p.message index).fields.number_mem f (FieldTable.find?_eq_some_iff.1 hf.find).1
  rw [keyed_eq_andThen, andThen, Field.retag, List.append_assoc, readKey_encodeKey hnumber]
  show Agree Eq (readFieldWith p (some (Message.readField p 99)) nestingLimit index m f.number
    f.kind.wireType (v ++ rest)) _
  rw [readFieldWith_of_some (MessageType.find?_of_fields hf.find)]
  -- The key read, each arity is merged and decoded by a function of its own.
  cases harity : f.arity with
  | single => exact agree_readKnown_of_single hf hv rest harity (hfresh harity)
  | list => exact agree_readKnown_of_list hf hv rest harity
  | map entry => exact agree_readKnown_of_map hf hv rest harity

end Value

/-- A field that was decoded into a message was assigned. -/
theorem exists_assign_of_decodeField {p : Pool} {t : MessageType} {f : Field} {bytes : List UInt8}
    {m m' : Message} (h : decodeField p t f bytes m = .ok m') : ∃ v, m' = m.assign t f v := by
  rw [decodeField_eq] at h
  cases hv : readField p f bytes m with
  | error fault =>
    rw [hv] at h
    cases h
  | ok v =>
    rw [hv] at h
    exact ⟨v, (Except.ok.inj h).symm⟩

/-- Decoding values into a field sets no other field. -/
theorem find?_of_decodeValues {p : Pool} {t : MessageType} {f : Field}
    {values : List (List UInt8)} {m m' : Message} (h : decodeValues p t f values m = .ok m')
    {number : Nat} (hm : m.find? number = none) (hne : number ≠ f.number) :
    m'.find? number = none := by
  refine foldlM_invariant (I := fun m => m.find? number = none) ?_ hm h
  intro m v m' hm hdecode
  obtain ⟨x, rfl⟩ := exists_assign_of_decodeField hdecode
  exact find?_assign_eq_none hm hne x

/-- The values of a column with their keys are merged as the column is decoded, value by value, and
what follows is merged after them. -/
theorem agree_values {τ ε : Type} {R : Message → τ → Prop} {p : Pool} {index : Nat} {f : Field}
    (hf : IsMerged p (p.message index) f) {values : List (List UInt8)} (hvalues : IsColumn f values)
    {m : Message} (hfresh : f.arity = .single → values ≠ [] → m.find? f.number = none)
    {rest : List UInt8} (g : Fault → ε) {k : Message → Except ε (τ × List UInt8)}
    (hk : ∀ m', decodeValues p (p.message index) f values m = .ok m' →
      Agree R (mergeFields p index m' rest) (k m')) :
    Agree R (mergeFields p index m (values.flatMap f.retag ++ rest))
      (((decodeValues p (p.message index) f values m).mapError g).bind k) := by
  -- The message grows with every value, so the induction is for all messages that the field may be
  -- merged into; a single field must not be set, but then it has no second value either.
  induction values generalizing m with
  | nil => exact hk m rfl
  | cons v others ih =>
    have hv := hvalues.isValue v List.mem_cons_self
    rw [List.flatMap_cons, List.append_assoc]
    have hne : f.retag v ++ (others.flatMap f.retag ++ rest) ≠ [] := by
      simp [Field.retag, hv.ne_nil]
    have hone := agree_value hf hv (others.flatMap f.retag ++ rest)
      fun h => hfresh h (List.cons_ne_nil _ _)
    rw [decodeValues_cons] at hk ⊢
    cases hdecode : decodeField p (p.message index) f v m with
    | error fault =>
      rw [hdecode] at hone
      refine agree_mergeFields (k := k) hne hone g fun m' h => ?_
      cases h
    | ok m' =>
      rw [hdecode] at hone hk
      refine agree_mergeFields hne hone g
        (k := fun m' => ((decodeValues p (p.message index) f others m').mapError g).bind k) ?_
      intro m'' h
      obtain rfl := Except.ok.inj h
      refine ih ⟨fun u hu => hvalues.isValue u (List.mem_cons_of_mem _ hu), fun h => ?_⟩
        (fun h hothers => ?_) hk
      · exact Nat.le_of_succ_le (hvalues.single h)
      · -- A single field has no further value.
        have hlen := hvalues.single h
        rw [List.length_cons] at hlen
        exact absurd (List.eq_nil_of_length_eq_zero (by omega)) hothers

end Column

namespace Plan

/-- The known columns of a record hold values of their fields, and there are as many columns as
there are in the file. -/
structure Splits (p : Plan) (r : Record) (values : Nat → List (List UInt8)) : Prop where
  /-- The record is as wide as the file. -/
  width : r.width = p.storedCount
  /-- What a known column holds are the values. -/
  isColumn : ∀ known ∈ p.known, Column.IsColumn known.2 (values known.1)
  /-- There is nothing between the values. -/
  column : ∀ known ∈ p.known, r.column? known.1 = some (values known.1).flatten

/-- The encoded message that a record is with the keys of its values put back: the values of the
known columns in order, and the bytes of the column of all other fields if it is read. -/
def retagged (p : Plan) (r : Record) (values : Nat → List (List UInt8)) : List UInt8 :=
  (p.known.flatMap fun known => (values known.1).flatMap known.2.retag) ++
    p.unknownsColumn.toList.flatMap fun column => (r.column? column).getD []

variable {p : Plan} {r : Record} {values : Nat → List (List UInt8)}

/-- A known column adds its values to a message one after another. -/
theorem addKnown_eq_decodeValues (h : p.Splits r values) {known : Nat × Field}
    (hmem : known ∈ p.known) (hsound : known.2.Sound) (hgroup : known.2.isGroup = false)
    (m : Message) :
    p.addKnown r m known =
      (Column.decodeValues p.schema.pool p.schema.type known.2 (values known.1) m).mapError
        (.decode known.2.fullName known.1) := by
  have hcolumn := h.isColumn known hmem
  have hbytes : bytesOf r known.1 = .ok (values known.1).flatten := by
    rw [bytesOf, h.column known hmem]
  unfold addKnown
  rw [hbytes]
  simp only
  cases hvalues : values known.1 with
  | nil => rfl
  | cons v others =>
    rw [hvalues] at hcolumn
    have hne : (v :: others).flatten ≠ [] := by
      rw [List.flatten_cons]
      simp [(hcolumn.isValue v List.mem_cons_self).ne_nil]
    rw [if_neg hne, Column.decodeField_flatten hsound hgroup hcolumn (List.cons_ne_nil _ _)]
    cases Column.decodeValues p.schema.pool p.schema.type known.2 (v :: others) m <;> rfl

/-- The column of all other fields is merged as it is. -/
theorem agree_addUnknowns {column : Nat} {bytes : List UInt8} (h : r.column? column = some bytes)
    (m : Message) :
    Agree Eq (mergeFields p.schema.pool p.schema.index m bytes)
      ((p.addUnknowns r m column).map fun m => (m, [])) := by
  have hbytes : bytesOf r column = .ok bytes := by rw [bytesOf, h]
  refine (Agree.refl _).of_toOption_eq ?_
  unfold addUnknowns
  rw [hbytes]
  simp only [merge_eq_map]
  cases hmerge : mergeFields p.schema.pool p.schema.index m bytes with
  | error fault => rfl
  | ok x =>
    obtain ⟨m', rest⟩ := x
    obtain rfl := rest_eq_nil_of_mergeFields hmerge
    rfl

/-- The known columns with keys are merged as the plan reads them, and what follows after them. -/
theorem agree_known {τ : Type} {R : Message → τ → Prop} (h : p.Splits r values)
    {knowns : List (Nat × Field)} (hsub : ∀ known ∈ knowns, known ∈ p.known)
    (hdistinct : knowns.Pairwise fun a b => a.2.number ≠ b.2.number)
    (hmerged : ∀ known ∈ knowns, Column.IsMerged p.schema.pool p.schema.type known.2)
    {m : Message} (hfresh : ∀ known ∈ knowns, m.find? known.2.number = none)
    {rest : List UInt8} {k : Message → Except ReadError (τ × List UInt8)}
    (hk : ∀ m', Agree R (mergeFields p.schema.pool p.schema.index m' rest) (k m')) :
    Agree R
      (mergeFields p.schema.pool p.schema.index m
        ((knowns.flatMap fun known => (values known.1).flatMap known.2.retag) ++ rest))
      ((knowns.foldlM (p.addKnown r) m).bind k) := by
  -- Each column leaves the fields of the columns after it unset, as their numbers are different.
  induction knowns generalizing m with
  | nil => exact hk m
  | cons known others ih =>
    have hmem := hsub known List.mem_cons_self
    have hf := hmerged known List.mem_cons_self
    obtain ⟨hother, hdistinct⟩ := List.pairwise_cons.1 hdistinct
    rw [List.flatMap_cons, List.append_assoc, List.foldlM_cons,
      addKnown_eq_decodeValues h hmem hf.sound hf.notGroup]
    have hassoc : ∀ x : Except ReadError Message,
        (x >>= fun m' => others.foldlM (p.addKnown r) m').bind k =
          x.bind fun m' => (others.foldlM (p.addKnown r) m').bind k := by
      intro x
      cases x <;> rfl
    rw [hassoc]
    refine Column.agree_values hf (h.isColumn known hmem)
      (fun _ _ => hfresh known List.mem_cons_self) _ fun m' hm' => ?_
    refine ih (fun known' h' => hsub known' (List.mem_cons_of_mem _ h')) hdistinct
      (fun known' h' => hmerged known' (List.mem_cons_of_mem _ h')) fun known' h' => ?_
    exact Column.find?_of_decodeValues hm' (hfresh known' (List.mem_cons_of_mem _ h'))
      (hother known' h').symm

/-- What a record gives is what the encoded message gives that it is with keys. -/
theorem agree_materialize (h : p.Splits r values)
    (hdistinct : p.known.Pairwise fun a b => a.2.number ≠ b.2.number)
    (hmerged : ∀ known ∈ p.known, Column.IsMerged p.schema.pool p.schema.type known.2)
    (hlast : ∀ column, p.unknownsColumn = some column → column < p.storedCount) :
    Agree Eq (mergeFields p.schema.pool p.schema.index .empty (p.retagged r values))
      ((p.materialize r).map fun m => (m, [])) := by
  have hmaterialize : (p.materialize r).map (fun m => (m, ([] : List UInt8))) =
      (p.known.foldlM (p.addKnown r) Message.empty).bind fun m =>
        (p.unknownsColumn.toList.foldlM (p.addUnknowns r) m).map fun m => (m, []) := by
    unfold materialize
    cases p.known.foldlM (p.addKnown r) Message.empty <;> rfl
  -- The known columns come first on both sides, and what is left is the column of all others.
  rw [hmaterialize, retagged]
  refine agree_known h (fun _ hmem => hmem) hdistinct hmerged (fun _ _ => rfl) fun m => ?_
  cases hcolumn : p.unknownsColumn with
  | none =>
    show Agree Eq (mergeFields p.schema.pool p.schema.index m []) (.ok (m, []))
    rw [mergeFields_nil]
    exact .ok [] rfl
  | some column =>
    have hlt : column < r.columns.length := by
      rw [show r.columns.length = p.storedCount from h.width]
      exact hlast column hcolumn
    have hget : r.column? column = some r.columns[column] := List.getElem?_eq_getElem hlt
    have hbytes : ((some column).toList.flatMap fun column => (r.column? column).getD []) =
        r.columns[column] := by
      simp [hget]
    rw [hbytes]
    have hone : (some column).toList.foldlM (p.addUnknowns r) m = p.addUnknowns r m column := by
      show (p.addUnknowns r m column >>= fun m => .ok m) = _
      cases p.addUnknowns r m column <;> rfl
    rw [hone]
    exact agree_addUnknowns hget m

end Plan

/-- The stored entries are distinct positive numbers, with or without the entry of all other fields
after them. -/
def StoredFields.Distinct (stored : StoredFields) : Prop :=
  ∃ ids : List Int32, (stored.ids = ids ∨ stored.ids = ids ++ [unknownsId]) ∧ ids.Nodup ∧
    ∀ id ∈ ids, 0 < id.toInt

/-- No entry comes twice. -/
theorem StoredFields.Distinct.nodup {stored : StoredFields} (h : stored.Distinct) :
    stored.ids.Nodup := by
  obtain ⟨ids, hids | hids, hnodup, hpositive⟩ := h
  · rw [hids]
    exact hnodup
  · rw [hids]
    refine List.nodup_append.2 ⟨hnodup, by simp, ?_⟩
    intro id hid last hlast heq
    obtain rfl := List.mem_singleton.1 hlast
    have hpos := hpositive id hid
    rw [heq, show unknownsId.toInt = -1 from rfl] at hpos
    omega

namespace Plan

/-- The known columns hold different fields. -/
theorem pairwise_number_knownOf {stored : StoredFields} (h : stored.Distinct) (s : Schema)
    (numbers : List Nat) :
    (knownOf s numbers stored).Pairwise fun a b => a.2.number ≠ b.2.number := by
  refine (stored.pairwise_known _).imp_of_mem ?_
  rintro ⟨c, f⟩ ⟨c', f'⟩ hmem hmem' hlt hnumber
  obtain ⟨-, -, id, hget, hid⟩ := mem_knownOf.1 hmem
  obtain ⟨-, -, id', hget', hid'⟩ := mem_knownOf.1 hmem'
  have hsame : id = id' := by
    apply Int32.toInt_inj.1
    rw [hid, hid']
    exact congrArg Int.ofNat hnumber
  subst hsame
  obtain ⟨hc, hgetc⟩ := List.getElem?_eq_some_iff.1 hget
  obtain ⟨hc', hgetc'⟩ := List.getElem?_eq_some_iff.1 hget'
  exact List.pairwise_iff_getElem.1 h.nodup c c' hc hc' hlt (hgetc.trans hgetc'.symm)

/-- A plan is of the schema, reads the columns of required fields, and takes the column of all other
fields, if at all, from the file. -/
theorem known_of_ofNumbers {s : Schema} {numbers : List Nat} {stored : StoredFields} {p : Plan}
    (h : ofNumbers s numbers stored = .ok p) :
    p.schema = s ∧ p.known = knownOf s numbers stored ∧ p.storedCount = stored.columnCount ∧
      ∀ column, p.unknownsColumn = some column → stored.unknownsColumn? = some column := by
  refine ⟨?_, ?_, ?_, fun column => unknownsColumn?_of_ofNumbers h⟩ <;> rw [eq_of_ofNumbers h]

/-- What is read along a plan is what merging reads below the nesting limit. -/
theorem agree_materialize_of_ofNumbers {s : Schema} (hsound : s.pool.Sound) {stored : StoredFields}
    (hstored : stored.Distinct) {numbers : List Nat} {p : Plan}
    (hp : ofNumbers s numbers stored = .ok p)
    (hgroup : ∀ f ∈ p.knownFields, f.isGroup = false)
    (hentry : ∀ f ∈ p.knownFields, ∀ index, f.arity = .map index →
      (s.pool.message index).IsEntry s.pool)
    {r : Record} {values : Nat → List (List UInt8)} (h : p.Splits r values) :
    Agree Eq (mergeFields s.pool s.index .empty (p.retagged r values))
      ((p.materialize r).map fun m => (m, [])) := by
  obtain ⟨rfl, hknown, hcount, hunknowns⟩ := known_of_ofNumbers hp
  refine agree_materialize h ?_ (fun known hmem => ?_) fun column hcolumn => ?_
  · rw [hknown]
    exact pairwise_number_knownOf hstored _ _
  · have hfield : known.2 ∈ p.knownFields := List.mem_map_of_mem hmem
    rw [hknown] at hmem
    obtain ⟨-, hfind, -⟩ := mem_knownOf.1 hmem
    refine ⟨hfind, ?_, hgroup _ hfield, hentry _ hfield⟩
    exact hsound.message p.schema.index _ (FieldTable.find?_eq_some_iff.1 hfind).1
  · have hlast := ((stored.unknownsColumn?_eq_some_iff column).1 (hunknowns column hcolumn)).2
    omega

/-- A plan that reads the regular map from a column of its own, and a text from the column of all
other fields. -/
def regularPlan : Plan :=
  ⟨Sample.regular, [(0, Sample.field "a.A." "m" 3 (.message 1) (.map 1) (.message .empty))], some 1,
    [Sample.field "a.A." "s" 1 (.scalar .string) .single (.string "")], [1, 3], 2⟩

/-- A plan that reads the loose maps, each from a column of its own. -/
def loosePlan : Plan :=
  ⟨Sample.loose, [(0, Sample.field "b.B." "m" 2 (.message 1) (.map 1) (.message .empty)),
    (1, Sample.field "b.B." "d" 3 (.message 2) (.map 2) (.message .empty)),
    (2, Sample.field "b.B." "e" 4 (.message 3) (.map 3) (.message .empty)),
    (3, Sample.field "b.B." "r" 5 (.message 4) (.map 4) (.message .empty))], none, [],
    [2, 3, 4, 5], 4⟩

/-- The entries of the regular map are as the language makes them. -/
theorem isEntry_regular : (Sample.regular.pool.message 1).IsEntry Sample.regular.pool where
  only := by
    intro n f hfind
    obtain ⟨hmem, rfl⟩ := MessageType.mem_of_find? hfind
    rcases hmem with hmem | hmem
    · rcases List.mem_cons.1 hmem with rfl | hmem
      · exact .inl rfl
      · obtain rfl := List.mem_singleton.1 hmem
        exact .inr rfl
    · exact absurd hmem List.not_mem_nil
  key := by
    intro f hfind
    obtain rfl := Option.some.inj hfind
    exact ⟨rfl, rfl⟩
  oneof := by
    intro f hfind
    obtain rfl := Option.some.inj hfind
    exact List.not_mem_nil

/-- The message of a record whose known columns are values of their fields is the one that its
values and its other fields encode once the keys are put back, and there is one just if they encode
one. -/
theorem materialize_eq_ok_iff {set : List UInt8} {name : String} {s : Schema}
    (hs : Schema.ofDescriptorSet set name = .ok s) {stored : StoredFields}
    (hstored : stored.Distinct) {numbers : List Nat} {p : Plan}
    (hp : ofNumbers s numbers stored = .ok p)
    (hgroup : ∀ f ∈ p.knownFields, f.isGroup = false)
    (hentry : ∀ f ∈ p.knownFields, ∀ index, f.arity = .map index →
      (s.pool.message index).IsEntry s.pool)
    {r : Record} {values : Nat → List (List UInt8)} (h : p.Splits r values)
    (hdepth : decode s.pool s.index (p.retagged r values) ≠ .error .recursionLimit)
    (m : Message) :
    p.materialize r = .ok m ↔ decode s.pool s.index (p.retagged r values) = .ok m := by
  -- The two outcomes agree but for the nesting, which `hdepth` leaves out on the merging side.
  have hagree := agree_materialize_of_ofNumbers (Schema.sound_of_ofDescriptorSet hs) hstored hp
    hgroup hentry h
  rw [decode, merge_eq_map] at hdepth ⊢
  generalize mergeFields s.pool s.index .empty (p.retagged r values) = x at hagree hdepth ⊢
  generalize p.materialize r = y at hagree ⊢
  cases y with
  | error e =>
    cases hagree with
    | limit _ => exact absurd rfl hdepth
    | error f _ => constructor <;> intro h <;> cases h
  | ok m' =>
    cases hagree with
    | limit _ => exact absurd rfl hdepth
    | ok _ hm =>
      subst hm
      constructor
      · intro h
        exact congrArg Except.ok (Except.ok.inj h)
      · intro h
        exact congrArg Except.ok (Except.ok.inj h)

/-- A record of a map's entry and a text, of which a known column is one value. -/
theorem materialize_regular :
    regularPlan.materialize ⟨[[5, 10, 1, 107, 16, 5], [10, 1, 120]]⟩ =
      .ok ⟨[(1, .value (.string "x")), (3, .value (.map [(.string "k", .i32 5)]))]⟩ := by
  have hsplits : regularPlan.Splits ⟨[[5, 10, 1, 107, 16, 5], [10, 1, 120]]⟩
      fun _ => [[5, 10, 1, 107, 16, 5]] := by
    refine ⟨rfl, ?_, ?_⟩
    · intro known hknown
      obtain rfl := List.mem_singleton.1 hknown
      refine ⟨fun v hv => ?_, fun h => absurd h (by decide)⟩
      obtain rfl := List.mem_singleton.1 hv
      exact ⟨[10, 1, 107, 16, 5], rfl⟩
    · intro known hknown
      obtain rfl := List.mem_singleton.1 hknown
      rfl
  have hdecode : decode Sample.regular.pool Sample.regular.index
      (regularPlan.retagged ⟨[[5, 10, 1, 107, 16, 5], [10, 1, 120]]⟩
        fun _ => [[5, 10, 1, 107, 16, 5]]) =
      .ok ⟨[(1, .value (.string "x")), (3, .value (.map [(.string "k", .i32 5)]))]⟩ := by
    cbv
  have hstored : StoredFields.Distinct ⟨[3, -1]⟩ := ⟨[3], .inr rfl, by decide, by simp⟩
  have hplan : ofNumbers Sample.regular [1, 3] ⟨[3, -1]⟩ = .ok regularPlan := rfl
  refine (materialize_eq_ok_iff Sample.ofDescriptorSet_regularSet hstored hplan ?_ ?_ hsplits ?_
    _).2 hdecode
  · intro f hf
    obtain rfl := List.mem_singleton.1 hf
    rfl
  · intro f hf index hindex
    obtain rfl := List.mem_singleton.1 hf
    obtain rfl := Arity.map.inj hindex
    exact isEntry_regular
  · rw [hdecode]
    intro h
    cases h

/-- The records of one entry of a loose map each. -/
def looseRecords : List Record :=
  [⟨[[5, 10, 1, 97, 16, 5], [], [], []]⟩, ⟨[[], [0], [], []]⟩,
    ⟨[[], [], [7, 10, 1, 97, 16, 5, 26, 0], []]⟩, ⟨[[], [], [], [5, 10, 1, 97, 16, 5]]⟩]

/-- The values of a record none of whose columns holds more than one. -/
def singleValues (r : Record) (column : Nat) : List (List UInt8) :=
  (r.column? column).toList.filter (· ≠ [])

/-- A record is split into single values if no column of a field holds more than one. -/
theorem splits_singleValues {p : Plan} {r : Record} (hwidth : r.width = p.storedCount)
    (hcolumn : ∀ known ∈ p.known, ∃ bytes, r.column? known.1 = some bytes ∧
      (bytes = [] ∨ IsValue known.2.kind.wireType bytes)) : p.Splits r (singleValues r) := by
  have hvalues : ∀ known ∈ p.known, ∃ bytes, r.column? known.1 = some bytes ∧
      (bytes = [] ∧ singleValues r known.1 = [] ∨
        IsValue known.2.kind.wireType bytes ∧ singleValues r known.1 = [bytes]) := by
    intro known hknown
    obtain ⟨bytes, hget, hbytes⟩ := hcolumn known hknown
    refine ⟨bytes, hget, hbytes.imp (fun hnil => ⟨hnil, ?_⟩) fun hvalue => ⟨hvalue, ?_⟩⟩
    · simp [singleValues, hget, hnil]
    · simp [singleValues, hget, hvalue.ne_nil]
  refine ⟨hwidth, fun known hknown => ?_, fun known hknown => ?_⟩
  · obtain ⟨bytes, -, ⟨-, hsingle⟩ | ⟨hvalue, hsingle⟩⟩ := hvalues known hknown <;> rw [hsingle]
    · exact ⟨fun v hv => absurd hv List.not_mem_nil, fun _ => Nat.zero_le 1⟩
    · exact ⟨fun v hv => List.mem_singleton.1 hv ▸ hvalue, fun _ => Nat.le_refl 1⟩
  · obtain ⟨bytes, hget, ⟨hnil, hsingle⟩ | ⟨-, hsingle⟩⟩ := hvalues known hknown <;>
      rw [hget, hsingle]
    · rw [hnil]
      rfl
    · rw [List.flatten_singleton]

/-- What the statement asks of the entries of maps cannot be left out: the loose maps, which no
compiler of the language makes, are read differently from a column of their own and when they are
merged. From a column a value clears a key that is in its oneof, a key that is not there is the
declared default, a field that is neither key nor value has to be well-formed, and a repeated key is
none; when the entry is merged the key is what was read, or empty, and nothing else is looked at. -/
theorem materialize_loose_ne_decode :
    Schema.ofDescriptorSet Sample.looseSet "b.B" = .ok Sample.loose ∧
      StoredFields.Distinct ⟨[2, 3, 4, 5]⟩ ∧
      ofNumbers Sample.loose [2, 3, 4, 5] ⟨[2, 3, 4, 5]⟩ = .ok loosePlan ∧
      (∀ f ∈ loosePlan.knownFields, f.isGroup = false) ∧
      (∀ r ∈ looseRecords, loosePlan.Splits r (singleValues r)) ∧
      looseRecords.map (fun r => (loosePlan.materialize r).toOption) =
        [some ⟨[(2, .value (.map [(.string "", .i32 5)]))]⟩,
          some ⟨[(3, .value (.map [(.string "k", .i32 0)]))]⟩, none, none] ∧
      looseRecords.map (fun r => decode Sample.loose.pool Sample.loose.index
          (loosePlan.retagged r (singleValues r))) =
        [.ok ⟨[(2, .value (.map [(.string "a", .i32 5)]))]⟩,
          .ok ⟨[(3, .value (.map [(.string "", .i32 0)]))]⟩,
          .ok ⟨[(4, .value (.map [(.string "a", .i32 5)]))]⟩,
          .ok ⟨[(5, .value (.map [(.string "a", .i32 5)]))]⟩] := by
  refine ⟨Sample.ofDescriptorSet_looseSet, ⟨[2, 3, 4, 5], .inl rfl, by decide, by simp⟩, rfl,
    by decide, fun r hr => ?_, by cbv, by cbv⟩
  fin_cases hr
  all_goals
    refine splits_singleValues rfl fun known hknown => ?_
    fin_cases hknown
  -- Every record has one column that is not empty, and this is one delimited value.
  all_goals first | exact ⟨[], rfl, .inl rfl⟩ | exact ⟨_, rfl, .inr ⟨_, rfl⟩⟩

end Plan

end ColumnarRecords
