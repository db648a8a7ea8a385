import ColumnarRecords.Proofs.Descriptor.FieldOrder

/-!
# Fields and extensions have different numbers

A message type of a descriptor set has no field and extension of one number
(`Pool.apart_of_decode`): a field is not in a range that the message leaves to extensions, and an
extension is in one.

The message that an extension extends is found by its name. So the proof follows the positions that
definitions carry: the definition of a message stands for the one that is declared at its position
(`Definitions.Follows`), and what a reference stands for is one of the definitions
(`Scope.mem_of_resolve`).
-/

namespace ColumnarRecords.Descriptor

/-- The definitions are those of declared messages, each at its position, and of other items. -/
structure Definitions.Follows (d : Definitions)
    (declared : List (String × Declaration.MessageType)) : Prop where
  /-- The next message gets the position after those that are declared. -/
  messages : d.messages = declared.length
  /-- A definition of a message is that of the one that is declared at its position. -/
  message : ∀ e ∈ d.list, ∀ index m, e.meaning = .message index m →
    ∃ name, declared[index]? = some (name, m)

namespace Definitions.Follows

variable {d d' : Definitions} {declared : List (String × Declaration.MessageType)}

/-- There is no definition at first. -/
theorem empty : Definitions.empty.Follows [] :=
  ⟨rfl, fun _ he => absurd he List.not_mem_nil⟩

/-- An item is defined, at the next position if it is a message. -/
theorem addItem {file : String} {dialect : Dialect} {item : Item} (hd : d.Follows declared)
    (h : d.addItem file dialect item = .ok d') :
    d'.Follows (declared ++ item.message?.toList) := by
  unfold Definitions.addItem at h
  split at h
  · cases h
  · cases h
  obtain rfl := Except.ok.inj h
  unfold Item.message?
  constructor
  case messages =>
    simp only [hd.messages]
    cases item.subject <;> simp
  case message =>
    intro e he index m hmeaning
    rcases List.mem_append.1 he with he | he
    · obtain ⟨name, hname⟩ := hd.message e he index m hmeaning
      have hlt := (List.getElem?_eq_some_iff.1 hname).1
      exact ⟨name, by rw [List.getElem?_append_left hlt, hname]⟩
    · obtain rfl := List.mem_singleton.1 he
      cases hsubject : item.subject <;> simp only [hsubject, meaning] at hmeaning <;>
        try cases hmeaning
      refine ⟨item.fullName, ?_⟩
      simp [hd.messages]

/-- Items are defined in turn. -/
theorem foldlM_addItem {file : String} {dialect : Dialect} {items : List Item}
    (hd : d.Follows declared) (h : items.foldlM (Definitions.addItem file dialect) d = .ok d') :
    d'.Follows (declared ++ items.filterMap Item.message?) := by
  induction items generalizing d declared with
  | nil =>
    obtain rfl := Except.ok.inj h
    simpa using hd
  | cons item rest ih =>
    rw [List.foldlM_cons] at h
    obtain ⟨between, hstep, hrest⟩ := bind_eq_ok.1 h
    have hboth := ih (hd.addItem hstep) hrest
    rw [List.append_assoc] at hboth
    cases hitem : item.message? <;> simpa [hitem] using hboth

/-- Files are defined in turn. -/
theorem addFiles {seen : List String} {files : List Declaration.File} (hd : d.Follows declared)
    (h : Definitions.addFiles d seen files = .ok d') :
    d'.Follows (declared ++ declaredMessages files) := by
  induction files generalizing d declared seen with
  | nil =>
    obtain rfl := Except.ok.inj h
    simpa [declaredMessages] using hd
  | cons f rest ih =>
    unfold Definitions.addFiles at h
    obtain ⟨dialect, -, h⟩ := bind_eq_ok.1 h
    split at h
    · cases h
    obtain ⟨between, hstep, hrest⟩ := bind_eq_ok.1 h
    have hboth := ih (hd.foldlM_addItem hstep) hrest
    rwa [List.append_assoc] at hboth

end Definitions.Follows

namespace Scope

variable {s : Scope} {wanted : Wanted} {d : Definition}

/-- What is found under a name is defined. -/
theorem mem_of_look {fullName : String} (h : s.look wanted fullName = .found d) :
    d ∈ s.definitions.list := by
  unfold look at h
  cases hfind : s.definitions.find? fullName with
  | none =>
    rw [hfind] at h
    cases h
  | some e =>
    simp only [hfind] at h
    -- Only what the file sees and wants is found, and it is the definition.
    repeat' split at h
    all_goals first
      | cases h
        done
      | obtain rfl := Finding.found.inj h
        exact List.mem_of_find?_eq_some hfind

/-- What is found under a name without a point is defined. -/
theorem mem_of_lookSimple {scope name : String} (h : s.lookSimple wanted scope name = .found d) :
    d ∈ s.definitions.list := by
  -- Whatever is found is what was found in one of the scopes.
  have hfound : ∀ {isFound : Finding → Bool},
      ((Naming.scopes scope).map fun outer => s.look wanted (Naming.qualify outer name)).find?
        isFound = some (.found d) → d ∈ s.definitions.list := by
    intro isFound hfind
    obtain ⟨outer, -, houter⟩ := List.mem_map.1 (List.mem_of_find?_eq_some hfind)
    exact mem_of_look houter
  unfold lookSimple at h
  simp only at h
  split at h
  · rename_i finding hfind
    exact hfound (h ▸ hfind)
  · rename_i hnone
    cases hpresent : List.find? _ _ with
    | none =>
      rw [hpresent] at h
      cases h
    | some finding =>
      rw [hpresent, Option.getD_some] at h
      exact hfound (h ▸ hpresent)

/-- What a reference stands for is defined. -/
theorem mem_of_resolve {scope reference : String} (h : s.resolve wanted scope reference = .ok d) :
    d ∈ s.definitions.list := by
  unfold resolve at h
  simp only at h
  -- A reference stands for what one of the look-ups found; all other cases are faults.
  repeat' split at h
  all_goals first
    | cases h
      done
    | rename_i hfind
      obtain rfl := Except.ok.inj h
      first
        | exact mem_of_look hfind
        | exact mem_of_lookSimple hfind

/-- An extension extends a message that is defined, at a number that the message leaves to
extensions. -/
theorem exists_of_extension {fullName : String} {path : List Nat} {f : Declaration.Field}
    {x : Nat × Field} (h : s.extension fullName path f = .ok x) :
    ∃ e ∈ s.definitions.list, ∃ m, e.meaning = .message x.1 m ∧
      m.LeavesToExtensions x.2.number := by
  unfold extension at h
  obtain ⟨e, hresolve, h⟩ := bind_eq_ok.1 h
  split at h
  · rename_i extended file index m
    obtain ⟨target, -, h⟩ := bind_eq_ok.1 h
    obtain ⟨⟨⟩, hnumber, h⟩ := bind_eq_ok.1 h
    split at h
    · cases h
    · rename_i hrange
      obtain ⟨v, -, h⟩ := bind_eq_ok.1 h
      obtain rfl := Except.ok.inj h
      have hpos := pos_of_checkNumber hnumber
      have hcast : ((f.number.toNat : Nat) : Int) = f.number := Int.toNat_of_nonneg (by omega)
      refine ⟨_, mem_of_resolve hresolve, m, rfl, ?_⟩
      show m.LeavesToExtensions ((f.number.toNat : Nat) : Int)
      rw [hcast]
      simpa [Declaration.MessageType.LeavesToExtensions] using hrange
  · cases h

end Scope

namespace Resolved

/-- The extensions resolved so far extend declared messages at numbers left to them, and have not
been added to the types yet. -/
structure Extending (declared : List (String × Declaration.MessageType)) (r : Resolved) :
    Prop where
  /-- A type has no extension yet. -/
  plain : ∀ t ∈ r.messages, t.extensions = .empty
  /-- An extension has a number that the message it extends leaves to extensions. -/
  extension : ∀ x ∈ r.extensions, ∃ name m, declared[x.1]? = some (name, m) ∧
    m.LeavesToExtensions x.2.number

variable {declared : List (String × Declaration.MessageType)} {r r' : Resolved}

/-- An item leaves it so, if definitions follow the declared messages. -/
theorem Extending.addItem {s : Scope} (hs : s.definitions.Follows declared) {item : Item}
    (hr : r.Extending declared) (h : addItem s r item = .ok r') : r'.Extending declared := by
  unfold Resolved.addItem at h
  split at h
  case h_1 m _ =>
    obtain ⟨t, ht, h⟩ := bind_eq_ok.1 h
    obtain rfl := Except.ok.inj h
    refine ⟨fun u hu => ?_, hr.extension⟩
    rcases List.mem_append.1 hu with hu | hu
    · exact hr.plain u hu
    · obtain rfl := List.mem_singleton.1 hu
      unfold Scope.message at ht
      obtain ⟨fields, -, ht⟩ := bind_eq_ok.1 ht
      obtain rfl := Except.ok.inj ht
      rfl
  case h_4 f _ =>
    obtain ⟨x, hx, h⟩ := bind_eq_ok.1 h
    obtain rfl := Except.ok.inj h
    refine ⟨hr.plain, fun y hy => ?_⟩
    rcases List.mem_append.1 hy with hy | hy
    · exact hr.extension y hy
    · obtain rfl := List.mem_singleton.1 hy
      obtain ⟨e, he, m, hmeaning, hleft⟩ := Scope.exists_of_extension hx
      obtain ⟨name, hname⟩ := hs.message e he _ m hmeaning
      exact ⟨name, m, hname, hleft⟩
  all_goals
    -- Nothing else changes types and extensions.
    first
      | obtain ⟨_, -, h⟩ := bind_eq_ok.1 h
        obtain rfl := Except.ok.inj h
        exact ⟨hr.plain, hr.extension⟩
      | obtain rfl := Except.ok.inj h
        exact hr

/-- A file leaves it so. -/
theorem Extending.addFile {definitions : Definitions} (hd : definitions.Follows declared)
    {files : List Declaration.File} {f : Declaration.File} (hr : r.Extending declared)
    (h : addFile definitions files r f = .ok r') : r'.Extending declared := by
  unfold Resolved.addFile at h
  obtain ⟨-, -, h⟩ := bind_eq_ok.1 h
  obtain ⟨dialect, -, h⟩ := bind_eq_ok.1 h
  exact foldlM_invariant (fun _ _ _ hb hstep => Extending.addItem hd hb hstep) hr h

/-- All files do. -/
theorem extending_of_ofFiles {definitions : Definitions} (hd : definitions.Follows declared)
    {files : List Declaration.File} (h : ofFiles definitions files = .ok r) :
    r.Extending declared :=
  foldlM_invariant (fun _ _ _ hb hstep => Extending.addFile hd hb hstep)
    ⟨fun _ ht => absurd ht List.not_mem_nil, fun _ hx => absurd hx List.not_mem_nil⟩ h

end Resolved

/-- A field of a table into which others were put was put in or was there. -/
theorem FieldTable.mem_insertAll {fields : List Field} {t : FieldTable} {g : Field}
    (h : g ∈ (t.insertAll fields).toList) : g ∈ fields ∨ g ∈ t.toList := by
  unfold insertAll at h
  induction fields generalizing t with
  | nil => exact .inr h
  | cons f rest ih =>
    rcases ih h with hrest | hone
    · exact .inl (List.mem_cons_of_mem f hrest)
    · simp only at hone
      cases hinsert : t.insert? f with
      | none =>
        rw [hinsert] at hone
        exact .inr hone
      | some after =>
        rw [hinsert] at hone
        rcases List.mem_cons.1 ((perm_insert? hinsert).mem_iff.1 hone) with rfl | hold
        · exact .inl List.mem_cons_self
        · exact .inr hold

/-- No field and extension of a type have the same number. -/
def MessageType.Apart (t : MessageType) : Prop :=
  ∀ f ∈ t.fields.toList, ∀ x ∈ t.extensions.toList, f.number ≠ x.number

/-- The types of a pool have fields and extensions of different numbers. -/
def Pool.Apart (p : Pool) : Prop :=
  ∀ t ∈ p.messages, t.Apart

/-- So has every type that the pool gives. -/
theorem Pool.Apart.message {p : Pool} (h : p.Apart) (index : Nat) : (p.message index).Apart := by
  unfold Pool.message
  cases hget : p.messages[index]? with
  | none => exact fun f hf => absurd hf List.not_mem_nil
  | some t => exact h t (List.mem_of_getElem? hget)

/-- Fields and extensions of the types of a descriptor set have different numbers. -/
theorem Pool.apart_of_decode {bytes : List UInt8} {p : Pool} (h : decode bytes = .ok p) :
    p.Apart := by
  intro t ht f hf x hx hsame
  unfold decode at h
  split at h
  · cases h
  rename_i files hfiles
  unfold ofFiles at h
  obtain ⟨definitions, hdefinitions, h⟩ := bind_eq_ok.1 h
  obtain ⟨r, hr, h⟩ := bind_eq_ok.1 h
  obtain ⟨-, -, h⟩ := bind_eq_ok.1 h
  obtain rfl := Except.ok.inj h
  obtain ⟨i, hi⟩ := List.mem_iff_getElem?.1 ht
  have hfollows := Definitions.Follows.empty.addFiles hdefinitions
  have hextending := Resolved.extending_of_ofFiles hfollows hr
  obtain ⟨⟨name, m⟩, hd, hdeclares⟩ := Resolved.declares_of_getElem? hr hi
  have hnot := hdeclares.apart f hf
  -- The extension has a number left to extensions of this very message, and the field has not.
  obtain ⟨u, hu, rfl⟩ := Resolved.getElem?_messages_pool hi
  rcases FieldTable.mem_insertAll hx with hown | hplain
  · simp only [Resolved.extensionsOf, List.mem_filterMap, Option.ite_none_right_eq_some,
      Option.some.injEq] at hown
    obtain ⟨y, hy, rfl, rfl⟩ := hown
    obtain ⟨name', m', hd', hleft⟩ := hextending.extension y hy
    rw [List.nil_append, hd, Option.some.injEq, Prod.mk.injEq] at hd'
    rw [hd'.2, hsame] at hnot
    exact hnot hleft
  · rw [hextending.plain u (List.mem_of_getElem? hu)] at hplain
    exact absurd hplain List.not_mem_nil

end ColumnarRecords.Descriptor

namespace ColumnarRecords.Schema

/-- Fields and extensions of the types of a schema have different numbers. -/
theorem apart_of_ofDescriptorSet {bytes : List UInt8} {name : String} {s : Schema}
    (h : ofDescriptorSet bytes name = .ok s) : s.pool.Apart := by
  unfold ofDescriptorSet at h
  split at h
  · cases h
  · rename_i pool hpool
    simp only [ofPool] at h
    split at h
    · cases h
    · obtain rfl := Except.ok.inj h
      exact Descriptor.Pool.apart_of_decode hpool

end ColumnarRecords.Schema

namespace ColumnarRecords.Sample

open Descriptor

/-- The extended message, as declared: a number and a text in a oneof, and a range of numbers left
to extensions. -/
def extendedMessage : Declaration.MessageType :=
  { declaredMessage "E" [declared "x" 1 false ⟨5, ""⟩ none (some 0),
      declared "y" 2 false ⟨9, ""⟩ none (some 0)] [] [⟨"o", none⟩] with
    extensionRanges := [⟨(100, 200), none⟩] }

/-- The file of the extended message, with an extension of it. -/
def extendedFile : Declaration.File :=
  { declaredFile "e" extendedMessage none with
    extensions := [{ declared "z" 100 false ⟨5, ""⟩ none none with extendee := some ".e.E" }] }

/-- The extended set: a message of a oneof, and an extension of it. -/
def extendedSet : List UInt8 :=
  [10, 66, 10, 1, 101, 18, 1, 101, 34, 41, 10, 1, 69, 18, 11, 10, 1, 120, 24, 1, 32, 1, 40, 5, 72,
    0, 18, 11, 10, 1, 121, 24, 2, 32, 1, 40, 9, 72, 0, 42, 5, 8, 100, 16, 200, 1, 66, 3, 10, 1, 111,
    58, 15, 10, 1, 122, 18, 4, 46, 101, 46, 69, 24, 100, 32, 1, 40, 5]

/-- The names that the extended set defines. -/
def extendedDefinitions : Definitions :=
  ⟨[⟨"e", "e", .package⟩, ⟨"e.E", "e", .message 0 extendedMessage⟩, ⟨"e.E.o", "e", .member⟩,
    ⟨"e.E.x", "e", .member⟩, ⟨"e.E.y", "e", .member⟩, ⟨"e.z", "e", .extension⟩], 1, 0⟩

/-- The types that the extended set declares. -/
def extendedTypes : Resolved :=
  ⟨[⟨"e.E", ⟨[{ field "e.E." "x" 1 (.scalar .int32) .single (.i32 0) with
        hasPresence := true, oneof := some 0 },
      { field "e.E." "y" 2 (.scalar .string) .single (.string "") with
        hasPresence := true, oneof := some 0 }],
      by decide, by decide⟩, .empty, ["o"], false⟩], [],
    [(0, { field "e." "z" 100 (.scalar .int32) .single (.i32 0) with hasPresence := true })]⟩

/-- The schema of the extended set. -/
def extended : Schema := ⟨extendedTypes.pool, 0⟩

/-- The schema is loaded from the extended set. -/
theorem ofDescriptorSet_extendedSet : Schema.ofDescriptorSet extendedSet "e.E" = .ok extended := by
  have hoptions : checkFileOptions extendedDefinitions [extendedFile] extendedTypes extendedFile =
      .ok () := by
    cbv
  exact Schema.ofDescriptorSet_eq_ok (by cbv) (by cbv) (by cbv) hoptions (by decide) (by cbv)

end ColumnarRecords.Sample
