import ColumnarRecords.Proofs.Column.Concatenation
import ColumnarRecords.Proofs.Column.Grammar
import ColumnarRecords.Proofs.Descriptor.Extension
import ColumnarRecords.Proofs.Message.Edit

/-!
# Decoding a column touches one field

A column is decoded into a message in place. If its bytes are at fault, the message is as it was,
wherever the fault is; otherwise the decoded field has changed and the other members of its oneof
are cleared, and everything else is as it was, extensions and values of unknown numbers included
(`Column.decodeInto_frame`). A single value replaces what the field held, and the values of a list
or a map are added to those that are there (`Column.Gains`). Which values these are is told by the
bytes: they are cut into parts, and each part spells one of them (`Column.Spells`,
`Column.SpellsEntry`).

Extensions and values of unknown numbers are entries of a message as fields are, so they are left
alone for two reasons: an extension never has the number of a field
(`Schema.apart_of_ofDescriptorSet`), and a message holds values of unknown numbers under numbers
that its type does not know (`Message.Fits`).
-/

namespace ColumnarRecords

open Descriptor Wire

/-- Those that share a oneof with a field are fields of the type. -/
theorem Descriptor.MessageType.exists_of_mem_siblings {t : MessageType} {f : Field} {n : Nat}
    (h : n ∈ t.siblings f) : ∃ g ∈ t.fields.toList, g.number = n := by
  unfold siblings at h
  cases honeof : f.oneof with
  | none =>
    rw [honeof] at h
    exact absurd h List.not_mem_nil
  | some i =>
    rw [honeof] at h
    obtain ⟨g, hg, hnumber⟩ := List.mem_map.1 h
    exact ⟨g, (List.mem_filter.1 hg).1, hnumber⟩

namespace Message

section Untouched

variable {β : Type} {make : Nat × Entry → List β}

/-- What is made of entries stays the same if one of which nothing is made is put in, in the place
of one of which nothing is made. -/
theorem flatMap_insertEntry {number : Nat} {e : Entry} {entries : List (Nat × Entry)}
    (hnew : make (number, e) = []) (hold : ∀ x ∈ entries, x.1 = number → make x = []) :
    (insertEntry number e entries).flatMap make = entries.flatMap make := by
  induction entries with
  | nil => simp [insertEntry, hnew]
  | cons x rest ih =>
    obtain ⟨n, d⟩ := x
    obtain ⟨hhead, hrest⟩ := List.forall_mem_cons.1 hold
    rw [insertEntry]
    split
    · rename_i hsame
      rw [List.flatMap_cons, List.flatMap_cons, hnew, hhead hsame]
    · split
      · rw [List.flatMap_cons, hnew, List.nil_append]
      · rw [List.flatMap_cons, List.flatMap_cons, ih hrest]

/-- What is made of entries stays the same if those of which nothing is made are left out. -/
theorem flatMap_filter {keep : Nat × Entry → Bool} {entries : List (Nat × Entry)}
    (h : ∀ x ∈ entries, keep x = false → make x = []) :
    (entries.filter keep).flatMap make = entries.flatMap make := by
  induction entries with
  | nil => rfl
  | cons x rest ih =>
    obtain ⟨hhead, hrest⟩ := List.forall_mem_cons.1 h
    cases hkeep : keep x with
    | true => rw [List.filter_cons_of_pos hkeep, List.flatMap_cons, List.flatMap_cons, ih hrest]
    | false =>
      rw [List.filter_cons_of_neg (by simp [hkeep]), List.flatMap_cons, hhead hkeep,
        List.nil_append, ih hrest]

/-- What is made of the entries of a message stays the same when a field is assigned, if nothing is
made of the field and the other members of its oneof. -/
theorem flatMap_assign {t : MessageType} {f : Field} {v : Value} {m : Message}
    (hnew : make (f.number, .value v) = [])
    (hold : ∀ x ∈ m.entries, x.1 = f.number ∨ x.1 ∈ t.siblings f → make x = []) :
    (m.assign t f v).entries.flatMap make = m.entries.flatMap make := by
  have hcleared : (m.clearSiblings t f).entries.flatMap make = m.entries.flatMap make := by
    rw [clearSiblings, entries_eraseAll]
    refine flatMap_filter fun x hx hgone => hold x hx (.inr ?_)
    simpa using hgone
  rw [assign, insert, flatMap_insertEntry hnew, hcleared]
  intro x hx hnumber
  rw [clearSiblings, entries_eraseAll] at hx
  exact hold x (List.mem_filter.1 hx).1 (.inl hnumber)

end Untouched

/-- Values as they stood on the wire are there under numbers only that the type does not know. -/
def Fits (t : MessageType) (m : Message) : Prop :=
  ∀ n values, (n, Entry.unknown values) ∈ m.entries → t.find? n = none

variable {t : MessageType} {m : Message}

/-- The empty message fits every type. -/
theorem fits_empty (t : MessageType) : empty.Fits t :=
  fun _ _ h => absurd h List.not_mem_nil

/-- A message fits if all but one of its numbers hold a value, and the type does not know this one. -/
theorem fits_of_unknown {number : Nat} (hnone : t.find? number = none)
    (h : ∀ x ∈ m.entries, x.1 = number ∨ ∃ v, x.2 = .value v) : m.Fits t := by
  intro n values hmem
  rcases h _ hmem with rfl | ⟨v, hv⟩
  · exact hnone
  · cases hv

/-- A message fits after an assignment. -/
theorem Fits.assign (h : m.Fits t) (f : Field) (v : Value) : (m.assign t f v).Fits t := by
  intro n values hmem
  rcases mem_insertEntry hmem with heq | hold
  · cases heq
  · rw [clearSiblings, entries_eraseAll] at hold
    exact h n values (List.mem_filter.1 hold).1

/-- A message fits after an edit, so every message that is decoded fits its type. -/
theorem Fits.edit {g : Message → Message} (hg : IsEdit t g) (h : m.Fits t) : (g m).Fits t := by
  induction hg generalizing m with
  | same => exact h
  | assign hf change => exact h.assign _ _
  | @keep number hnumber v =>
    intro n values hmem
    simp only [addUnknown] at hmem
    split at hmem <;> rcases mem_insertEntry hmem with heq | hold
    all_goals first
      | exact h n values hold
      | obtain ⟨rfl, -⟩ := Prod.mk.inj heq
        exact hnumber
  | after hg hh ihg ihh => exact ihh (ihg h)

/-- A field and those that share its oneof hold no values as they stood on the wire. -/
theorem Fits.exists_value (h : m.Fits t) {f : Field} (hf : f ∈ t.fields.toList) {x : Nat × Entry}
    (hx : x ∈ m.entries) (htouched : x.1 = f.number ∨ x.1 ∈ t.siblings f) :
    ∃ v, x.2 = .value v := by
  obtain ⟨n, e⟩ := x
  cases e with
  | value v => exact ⟨v, rfl⟩
  | unknown values =>
    have hknown : ∃ g ∈ t.fields.toList, g.number = n := by
      rcases htouched with rfl | hsibling
      · exact ⟨f, hf, rfl⟩
      · exact MessageType.exists_of_mem_siblings hsibling
    obtain ⟨g, hg, rfl⟩ := hknown
    have hnone := h _ _ hx
    rw [MessageType.find?_of_fields (FieldTable.find?_eq_some_iff.2 ⟨hg, rfl⟩)] at hnone
    cases hnone

/-- The values of unknown numbers are the same after an assignment. -/
theorem Fits.unknowns_assign (h : m.Fits t) {f : Field} (hf : f ∈ t.fields.toList) (v : Value) :
    (m.assign t f v).unknowns = m.unknowns := by
  refine flatMap_assign rfl fun x hx htouched => ?_
  obtain ⟨n, e⟩ := x
  obtain ⟨w, rfl⟩ := h.exists_value hf hx htouched
  rfl

/-- The extensions are the same after an assignment. -/
theorem extensions_assign (hapart : t.Apart) {f : Field} (hf : f ∈ t.fields.toList) (v : Value)
    (m : Message) :
    (m.assign t f v).extensions t = m.extensions t := by
  have hnone : ∀ g ∈ t.fields.toList, t.extensions.find? g.number = none := by
    intro g hg
    rw [← Option.not_isSome_iff_eq_none, Option.isSome_iff_exists]
    rintro ⟨x, hx⟩
    obtain ⟨hmem, hnumber⟩ := FieldTable.find?_eq_some_iff.1 hx
    exact hapart g hg x hmem hnumber.symm
  unfold extensions fieldsOf
  rw [List.filterMap_eq_flatMap_toList, List.filterMap_eq_flatMap_toList]
  refine flatMap_assign ?_ fun x hx htouched => ?_
  · simp [hnone f hf]
  · obtain ⟨n, e⟩ := x
    have hgone : t.extensions.find? n = none := by
      rcases htouched with rfl | hsibling
      · exact hnone f hf
      · obtain ⟨g, hg, rfl⟩ := MessageType.exists_of_mem_siblings hsibling
        exact hnone g hg
    cases e <;> simp [hgone]

/-- Only a field and the other members of its oneof, which are cleared, are changed. -/
structure TouchesOnly (t : MessageType) (f : Field) (m m' : Message) : Prop where
  /-- What is under another number is the same. -/
  others : ∀ n, n ≠ f.number → n ∉ t.siblings f → m'.find? n = m.find? n
  /-- The other members of the oneof are cleared. -/
  siblings : ∀ n ∈ t.siblings f, m'.find? n = none
  /-- The values of unknown numbers are the same. -/
  unknowns : m'.unknowns = m.unknowns
  /-- The extensions are the same. -/
  extensions : m'.extensions t = m.extensions t

/-- An assignment changes its field and clears the other members of the oneof. -/
theorem touchesOnly_assign (hapart : t.Apart) {f : Field} (hf : f ∈ t.fields.toList)
    (hm : m.Fits t) (v : Value) : m.TouchesOnly t f (m.assign t f v) where
  others := by
    intro n hnumber hsibling
    rw [find?_assign, if_neg hnumber, if_neg hsibling]
  siblings := by
    intro n hsibling
    have hnumber : n ≠ f.number := by
      rintro rfl
      exact number_notMem_siblings t f hsibling
    rw [find?_assign, if_neg hnumber, if_pos hsibling]
  unknowns := hm.unknowns_assign hf v
  extensions := extensions_assign hapart hf v m

end Message

namespace Column

/-- The column of a single field spells its value: a group is the message that all bytes encode, and
anything else is one value of the kind. -/
inductive SpellsWhole (p : Pool) (f : Field) (bytes : List UInt8) : Value → Prop
  /-- A group has no length. -/
  | group {index : Nat} {m : Message} (group : f.isGroup = true) (kind : f.kind = .message index)
    (body : Message.decode p index bytes = .ok m) : SpellsWhole p f bytes (.message m)
  /-- There is one value and no byte after it. -/
  | value {v : Value} (group : f.isGroup = false) (value : Spells p f.kind bytes v) :
    SpellsWhole p f bytes v

/-- The bytes are exactly one entry of a map: a varint and as many bytes as it says, which encode a
message that has the key and the value under the numbers one and two. -/
inductive SpellsEntry (p : Pool) (entry : Nat) : List UInt8 → MapKey × Value → Prop
  /-- The content is a message of the entry's type. -/
  | delimited {length content : List UInt8} {m : Message} {keyField valueField : Field}
    {e : MapKey × Value} (varint : IsVarint length) (count : sevens length = content.length)
    (body : Message.decode p entry content = .ok m)
    (keyOf : (p.message entry).fields.find? 1 = some keyField)
    (valueOf : (p.message entry).fields.find? 2 = some valueField)
    (key : m.get keyField = e.1.toValue) (value : m.get valueField = e.2) :
    SpellsEntry p entry (length ++ content) e

/-- A field holds what its column spells: a single value and nothing else, or the values that a list
or a map held with the spelled ones added, each of which is a part of the bytes. Of the entries of a
map that have one key the last counts. -/
inductive Gains (p : Pool) (f : Field) (bytes : List UInt8) (m m' : Message) : Prop
  /-- The value takes the place of what was there. -/
  | single {v : Value} (arity : f.arity = .single) (spelled : SpellsWhole p f bytes v)
    (value : m'.value? f.number = some v)
  /-- The elements come after those that were there. -/
  | list {parts : List (List UInt8)} {values : List Value} (arity : f.arity = .list)
    (cut : bytes = parts.flatten) (spelled : List.Forall₂ (Spells p f.kind) parts values)
    (value : m'.value? f.number = some (.list (listOf m f ++ values)))
  /-- The entries are put in among those that were there. -/
  | map {entry : Nat} {parts : List (List UInt8)} {entries held : List (MapKey × Value)}
    (arity : f.arity = .map entry) (cut : bytes = parts.flatten)
    (spelled : List.Forall₂ (SpellsEntry p entry) parts entries)
    (value : m'.value? f.number = some (.map held))
    (lookup : ∀ key, held.lookup key = (entries.reverse.lookup key).or ((mapOf m f).lookup key))

/-- What a single field is read as is what its column spells. -/
theorem spellsWhole_of_readSingle {p : Pool} {f : Field} (hf : f.Sound) {bytes : List UInt8}
    {v : Value} (h : readSingle p f bytes = .ok v) : SpellsWhole p f bytes v := by
  cases hgroup : f.isGroup with
  | true =>
    obtain ⟨index, hkind⟩ := hf.group hgroup
    simp only [readSingle, hkind, hgroup, decodeMessage] at h
    obtain ⟨m, hm, rfl⟩ := map_eq_ok.1 h
    cases hdecode : Message.decode p index bytes with
    | error fault =>
      rw [hdecode] at hm
      cases hm
    | ok m' =>
      rw [hdecode] at hm
      obtain rfl := Except.ok.inj hm
      exact .group hgroup hkind hdecode
  | false =>
    have hwhole : readWhole (readValue p f.kind) bytes = .ok v := by
      rw [← h, readSingle, hgroup]
      cases f.kind <;> rfl
    exact .value hgroup (readWhole_eq_ok_iff.1 hwhole)

/-- What an entry of a map is read as is what the bytes spell that were taken. -/
theorem spellsEntry_of_readEntry {p : Pool} {entry : Nat} {input rest : List UInt8}
    {e : MapKey × Value} (h : readEntry p entry input = .ok (e, rest)) :
    ∃ bytes, input = bytes ++ rest ∧ SpellsEntry p entry bytes e := by
  unfold readEntry decodeMessage at h
  cases hcontent : readDelimited input with
  | error fault =>
    rw [hcontent] at h
    cases h
  | ok r =>
    obtain ⟨content, after⟩ := r
    obtain ⟨length, rfl, hvarint, hcount⟩ := readDelimited_eq_ok_iff.1 hcontent
    rw [hcontent] at h
    simp only at h
    cases hdecode : Message.decode p entry content with
    | error fault =>
      rw [hdecode] at h
      cases h
    | ok m =>
      rw [hdecode] at h
      simp only at h
      split at h
      · rename_i keyField valueField hkey hvalue
        split at h
        · cases h
        · rename_i key hof
          obtain ⟨rfl, rfl⟩ := Prod.mk.inj (Except.ok.inj h)
          refine ⟨length ++ content, (List.append_assoc _ _ _).symm, ?_⟩
          exact .delimited hvarint hcount hdecode hkey hvalue (MapKey.toValue_of_ofValue? hof).symm
            rfl
      · cases h

/-- All values of bytes are those that parts of the bytes spell, if the reader takes such a part each
time. -/
theorem exists_parts_of_readAll {α : Type} {read : Reader α} (hseparates : Separates read)
    {Part : List UInt8 → α → Prop}
    (hpart : ∀ {input rest : List UInt8} {a : α}, read input = .ok (a, rest) →
      ∃ bytes, input = bytes ++ rest ∧ Part bytes a) {bytes : List UInt8} {values : List α}
    (h : readAll read bytes = .ok values) :
    ∃ parts, bytes = parts.flatten ∧ List.Forall₂ Part parts values := by
  -- The reader takes a part off the front each time, so the induction is on its reads.
  induction bytes using readAll.induct read generalizing values with
  | case1 =>
    rw [readAll, if_pos rfl] at h
    obtain rfl := Except.ok.inj h
    exact ⟨[], rfl, .nil⟩
  | case2 bytes hne fault hread =>
    rw [hseparates.readAll_eq, if_neg hne, hread] at h
    cases h
  | case3 bytes hne a rest hread hlt ih =>
    rw [hseparates.readAll_eq, if_neg hne, hread] at h
    obtain ⟨others, hothers, rfl⟩ := map_eq_ok.1 h
    obtain ⟨part, rfl, ha⟩ := hpart hread
    obtain ⟨parts, rfl, hparts⟩ := ih hothers
    exact ⟨part :: parts, rfl, .cons ha hparts⟩
  | case4 bytes hne a rest hread hnlt => exact absurd (hseparates.length_lt hread) hnlt

/-- What a field is assigned when a column is decoded into it is what it gains. -/
theorem gains_assign {p : Pool} {t : MessageType} {f : Field} (hf : f.Sound) {bytes : List UInt8}
    {m : Message} {v : Value} (h : readField p f bytes m = .ok v) :
    Gains p f bytes m (m.assign t f v) := by
  have hvalue : (m.assign t f v).value? f.number = some v := by
    rw [Message.value?, Message.find?_assign, if_pos rfl]
  unfold readField at h
  cases harity : f.arity with
  | single =>
    rw [harity] at h
    exact .single harity (spellsWhole_of_readSingle hf h) hvalue
  | list =>
    rw [harity] at h
    simp only at h
    split at h
    · cases h
    · obtain ⟨values, hvalues, rfl⟩ := map_eq_ok.1 h
      obtain ⟨parts, hcut, hspelled⟩ :=
        exists_parts_of_readAll (separates_readValue p f.kind) readValue_eq_ok_iff.1 hvalues
      exact .list harity hcut hspelled hvalue
  | map entry =>
    rw [harity] at h
    obtain ⟨entries, hentries, rfl⟩ := map_eq_ok.1 h
    obtain ⟨parts, hcut, hspelled⟩ :=
      exists_parts_of_readAll (separates_readEntry p entry) spellsEntry_of_readEntry hentries
    exact .map harity hcut hspelled hvalue fun key => lookup_insertAll key entries (mapOf m f)

/-- Decoding a column into a field of a message changes nothing if the bytes are at fault. Otherwise
the field holds what was decoded, and nothing but the field and the other members of its oneof has
changed. -/
theorem decodeInto_frame {set : List UInt8} {name : String} {s : Schema}
    (hset : Schema.ofDescriptorSet set name = .ok s) {f : Field} (hf : f ∈ s.fields)
    (bytes : List UInt8) {m : Message} (hm : m.Fits s.type) :
    (∀ fault m', decodeInto s.pool s.type f bytes m = .error fault m' → m' = m) ∧
      ∀ m', decodeInto s.pool s.type f bytes m = .ok () m' →
        m.TouchesOnly s.type f m' ∧ Gains s.pool f bytes m m' ∧ m'.Fits s.type := by
  rw [decodeInto_eq]
  cases hread : readField s.pool f bytes m with
  | error fault =>
    refine ⟨fun fault' m' h => ?_, fun m' h => ?_⟩
    · cases h
      rfl
    · cases h
  | ok v =>
    refine ⟨fun fault m' h => ?_, fun m' h => ?_⟩
    · cases h
    · cases h
      have hapart := (Schema.apart_of_ofDescriptorSet hset).message s.index
      have hsound := (Schema.sound_of_ofDescriptorSet hset).message s.index f hf
      exact ⟨Message.touchesOnly_assign hapart hf hm v, gains_assign hsound hread, hm.assign f v⟩

/-- The text of the extended message. -/
def extendedText : Field :=
  { Sample.field "e.E." "y" 2 (.scalar .string) .single (.string "") with
    hasPresence := true, oneof := some 0 }

/-- An extended message: the number of the oneof, an extension, and a value of an unknown number. -/
def extendedValue : Message :=
  ⟨[(1, .value (.i32 5)), (100, .value (.i32 7)), (300, .unknown [.varint 9])]⟩

/-- The number of the unknown value is one that the extended type does not know. -/
theorem fits_extendedValue : extendedValue.Fits Sample.extended.type := by
  have hnone : Sample.extended.type.find? 300 = none := rfl
  exact Message.fits_of_unknown hnone (by simp [extendedValue])

/-- A message of the regular type that has a number, an entry and a value of an unknown number. -/
def heldValue : Message :=
  ⟨[(2, .value (.list [.i32 1])), (3, .value (.map [(.string "k", .i32 5)])),
    (300, .unknown [.varint 9])]⟩

/-- Nor does the regular type know it. -/
theorem fits_heldValue : heldValue.Fits Sample.regular.type := by
  have hnone : Sample.regular.type.find? 300 = none := rfl
  exact Message.fits_of_unknown hnone (by simp [heldValue])

/-- A text that is decoded into the message clears the number and leaves the extension and the value
of the unknown number; with a byte after it nothing is changed. The numbers and the entries of other
columns come to those that a message has. -/
theorem decodeInto_frame_extended :
    (Schema.ofDescriptorSet Sample.extendedSet "e.E" = .ok Sample.extended ∧
      extendedText ∈ Sample.extended.fields ∧ extendedValue.Fits Sample.extended.type ∧
      (∃ m', decodeInto Sample.extended.pool Sample.extended.type extendedText [2, 104, 105]
          extendedValue = .ok () m' ∧
        m'.find? 1 = none ∧ m'.value? 2 = some (.string "hi") ∧
        Gains Sample.extended.pool extendedText [2, 104, 105] extendedValue m' ∧
        m'.find? 100 = extendedValue.find? 100 ∧ m'.unknowns = extendedValue.unknowns) ∧
      ∃ fault, decodeInto Sample.extended.pool Sample.extended.type extendedText
        [2, 104, 105, 0] extendedValue = .error fault extendedValue) ∧
    Schema.ofDescriptorSet Sample.regularSet "a.A" = .ok Sample.regular ∧
      regularNumbers ∈ Sample.regular.fields ∧ regularMap ∈ Sample.regular.fields ∧
      heldValue.Fits Sample.regular.type ∧
      (∃ m', decodeInto Sample.regular.pool Sample.regular.type regularNumbers [7, 172, 2]
          heldValue = .ok () m' ∧
        m'.value? 2 = some (.list [.i32 1, .i32 7, .i32 300]) ∧
        Gains Sample.regular.pool regularNumbers [7, 172, 2] heldValue m' ∧
        m'.find? 3 = heldValue.find? 3 ∧ m'.unknowns = heldValue.unknowns) ∧
      ∃ m', decodeInto Sample.regular.pool Sample.regular.type regularMap
          [2, 16, 3, 5, 10, 1, 107, 16, 7] heldValue = .ok () m' ∧
        m'.value? 3 = some (.map [(.string "", .i32 3), (.string "k", .i32 7)]) ∧
        Gains Sample.regular.pool regularMap [2, 16, 3, 5, 10, 1, 107, 16, 7] heldValue m' ∧
        m'.find? 2 = heldValue.find? 2 ∧ m'.unknowns = heldValue.unknowns := by
  refine ⟨?_, ?_⟩
  · have hset := Sample.ofDescriptorSet_extendedSet
    have hfield : extendedText ∈ Sample.extended.fields :=
      List.mem_cons_of_mem _ (List.mem_singleton.2 rfl)
    have hframe := fun bytes => decodeInto_frame hset hfield bytes fits_extendedValue
    refine ⟨hset, hfield, fits_extendedValue, ?_, ?_⟩
    · have hok : decodeInto Sample.extended.pool Sample.extended.type extendedText [2, 104, 105]
          extendedValue = .ok () ⟨[(2, .value (.string "hi")), (100, .value (.i32 7)),
            (300, .unknown [.varint 9])]⟩ := by cbv
      obtain ⟨htouches, hgains, -⟩ := (hframe _).2 _ hok
      refine ⟨_, hok, htouches.siblings 1 List.mem_cons_self, rfl, hgains, ?_, htouches.unknowns⟩
      exact htouches.others 100 (by decide) (by decide)
    · have hfault : ∃ fault m', decodeInto Sample.extended.pool Sample.extended.type extendedText
          [2, 104, 105, 0] extendedValue = .error fault m' := ⟨_, _, by cbv⟩
      obtain ⟨fault, m', hm'⟩ := hfault
      exact ⟨fault, hm'.trans (congrArg _ ((hframe _).1 fault m' hm'))⟩
  · have hset := Sample.ofDescriptorSet_regularSet
    have hnumbers : regularNumbers ∈ Sample.regular.fields :=
      List.mem_cons_of_mem _ List.mem_cons_self
    have hmap : regularMap ∈ Sample.regular.fields :=
      List.mem_cons_of_mem _ (List.mem_cons_of_mem _ List.mem_cons_self)
    have hlist : decodeInto Sample.regular.pool Sample.regular.type regularNumbers [7, 172, 2]
        heldValue = .ok () ⟨[(2, .value (.list [.i32 1, .i32 7, .i32 300])),
          (3, .value (.map [(.string "k", .i32 5)])), (300, .unknown [.varint 9])]⟩ := by cbv
    have hentries : decodeInto Sample.regular.pool Sample.regular.type regularMap
        [2, 16, 3, 5, 10, 1, 107, 16, 7] heldValue = .ok () ⟨[(2, .value (.list [.i32 1])),
          (3, .value (.map [(.string "", .i32 3), (.string "k", .i32 7)])),
          (300, .unknown [.varint 9])]⟩ := by cbv
    refine ⟨hset, hnumbers, hmap, fits_heldValue, ?_, ?_⟩
    · obtain ⟨htouches, hgains, -⟩ := (decodeInto_frame hset hnumbers _ fits_heldValue).2 _ hlist
      exact ⟨_, hlist, rfl, hgains, htouches.others 3 (by decide) (by decide), htouches.unknowns⟩
    · obtain ⟨htouches, hgains, -⟩ := (decodeInto_frame hset hmap _ fits_heldValue).2 _ hentries
      exact ⟨_, hentries, rfl, hgains, htouches.others 2 (by decide) (by decide),
        htouches.unknowns⟩

end Column

end ColumnarRecords
