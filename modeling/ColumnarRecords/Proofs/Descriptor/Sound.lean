import ColumnarRecords.Schema

/-!
# Fields as descriptor sets declare them

What holds of every field of a pool that comes from a descriptor set, however malformed the set's
declarations are otherwise: a map's values are entries, groups are messages, only lists of packable
kinds are packed, and a message has no default but the empty one. `Pool.sound_of_decode` is the main
statement; the proofs of what decoding and encoding do rest on it and never look at declarations.

Each type is built from its declaration by folds that fail at the first flaw, so the proof is that
of an invariant: `foldlM_invariant` carries it along a fold, and the field that a declaration stands
for (`Scope.sound_of_field`) is where it holds at first.
-/

namespace ColumnarRecords.Descriptor

/-- What comes before a step succeeded if both did together. -/
theorem bind_eq_ok {α β ε : Type} {x : Except ε α} {f : α → Except ε β} {b : β} :
    (x >>= f) = .ok b ↔ ∃ a, x = .ok a ∧ f a = .ok b := by
  cases x with
  | error e =>
    constructor
    · intro h
      cases h
    · rintro ⟨a, h, -⟩
      cases h
  | ok a =>
    constructor
    · intro h
      exact ⟨a, rfl, h⟩
    · rintro ⟨a', h, h'⟩
      obtain rfl := Except.ok.inj h
      exact h'

/-- What a function gave of what there was, if both are there. -/
theorem map_eq_ok {α β ε : Type} {x : Except ε α} {f : α → β} {b : β} :
    x.map f = .ok b ↔ ∃ a, x = .ok a ∧ f a = b := by
  cases x with
  | error e => simp [Except.map]
  | ok a => simp [Except.map]

/-- What a function gave of what there was fails exactly as that does. -/
theorem map_eq_error {α β ε : Type} {x : Except ε α} {f : α → β} {e : ε} :
    x.map f = .error e ↔ x = .error e := by
  cases x with
  | error e' => simp [Except.map]
  | ok a => simp [Except.map]

/-- What holds at first and is kept by every step that succeeds holds after a fold. -/
theorem foldlM_invariant {α β ε : Type} {step : β → α → Except ε β} {I : β → Prop}
    (hstep : ∀ b a b', I b → step b a = .ok b' → I b') {l : List α} {b b' : β}
    (hb : I b) (h : l.foldlM step b = .ok b') : I b' := by
  induction l generalizing b with
  | nil => exact Except.ok.inj h ▸ hb
  | cons a rest ih =>
    rw [List.foldlM_cons] at h
    obtain ⟨c, hc, hrest⟩ := bind_eq_ok.1 h
    exact ih (hstep b a c hb hc) hrest

/-- What holds of a field whatever declares it. -/
structure Field.Sound (f : Field) : Prop where
  /-- The values of a map are its entries. -/
  map : ∀ entry, f.arity = .map entry → f.kind = .message entry
  /-- Groups are messages. -/
  group : f.isGroup = true → ∃ index, f.kind = .message index
  /-- Only lists are packed, and only of kinds that can be. -/
  packed : f.isPacked = true → f.arity = .list ∧ f.kind.isPackable = true
  /-- A message that is not there is empty. -/
  message : ∀ index, f.kind = .message index → f.defaultValue = .message .empty

/-- The fields of a type are sound. -/
def MessageType.Sound (t : MessageType) : Prop :=
  ∀ f ∈ t.fields.toList, f.Sound

/-- The types of a pool are sound. -/
def Pool.Sound (p : Pool) : Prop :=
  ∀ t ∈ p.messages, t.Sound

/-- The type that stands for one that is missing has no field. -/
theorem MessageType.sound_empty : MessageType.empty.Sound :=
  fun _ hf => absurd hf List.not_mem_nil

/-- Every type that a sound pool gives is sound. -/
theorem Pool.Sound.message {p : Pool} (h : p.Sound) (index : Nat) : (p.message index).Sound := by
  unfold Pool.message
  cases hget : p.messages[index]? with
  | none => exact MessageType.sound_empty
  | some t => exact h t (List.mem_of_getElem? hget)

/-- There is no message in a field that is not set. -/
theorem Field.Sound.ofValue_unsetValue {f : Field} (h : f.Sound) (index : Nat)
    (hkind : f.kind = .message index) : Message.ofValue f.unsetValue = .empty := by
  have hdefault := h.message index hkind
  rw [Field.unsetValue]
  cases f.arity with
  | single =>
    show Message.ofValue f.defaultValue = .empty
    rw [hdefault]
    rfl
  | list => rfl
  | map entry => rfl

/-- The default of a message is the empty message. -/
theorem Target.defaultValue_message {declared : Option String} {index : Nat} {isMapEntry : Bool}
    {v : Value} (h : (Target.message index isMapEntry).defaultValue declared = .ok v) :
    v = .message .empty := by
  cases declared with
  | none => exact (Except.ok.inj h).symm
  | some text => cases h

/-- The field that a declaration stands for is sound. -/
theorem sound_fieldOf (dialect : Dialect) (fullName : String) {target : Target} {v : Value}
    (f : Declaration.Field) (hv : target.defaultValue f.defaultText = .ok v) :
    (fieldOf dialect fullName target v f).Sound where
  map := by
    intro entry h
    cases target with
    | scalar s => cases hr : f.repeated <;> simp [fieldOf, hr] at h
    | enum index name e => cases hr : f.repeated <;> simp [fieldOf, hr] at h
    | message index isMapEntry =>
      cases hr : f.repeated <;> cases isMapEntry <;> simp [fieldOf, hr] at h
      exact congrArg Kind.message h
  group := by
    intro h
    cases target with
    | scalar s => simp [fieldOf, Target.isMessage] at h
    | enum index name e => simp [fieldOf, Target.isMessage] at h
    | message index isMapEntry => exact ⟨index, rfl⟩
  packed := by
    intro h
    simp only [fieldOf, Bool.and_eq_true] at h
    obtain ⟨⟨hr, hp⟩, -⟩ := h
    refine ⟨?_, hp⟩
    cases target with
    | scalar s => simp [fieldOf, hr]
    | enum index name e => simp [fieldOf, hr]
    | message index isMapEntry => exact absurd hp Bool.false_ne_true
  message := by
    intro index h
    cases target with
    | scalar s => simp [fieldOf, Target.kind] at h
    | enum index name e => simp [fieldOf, Target.kind] at h
    | message index isMapEntry => exact Target.defaultValue_message hv

/-- A field of a message is sound. -/
theorem Scope.sound_of_field {s : Scope} {m : Declaration.MessageType} {fullName : String}
    {path : List Nat} {f : Declaration.Field} {field : Field}
    (h : s.field m fullName path f = .ok field) : field.Sound := by
  unfold Scope.field at h
  obtain ⟨-, -, h⟩ := bind_eq_ok.1 h
  obtain ⟨-, -, h⟩ := bind_eq_ok.1 h
  obtain ⟨target, -, h⟩ := bind_eq_ok.1 h
  obtain ⟨oneof, -, h⟩ := bind_eq_ok.1 h
  obtain ⟨v, hv, h⟩ := bind_eq_ok.1 h
  obtain rfl := Except.ok.inj h
  -- Presence and membership in a oneof, which are replaced, are not what soundness is about.
  obtain ⟨hmap, hgroup, hpacked, hmessage⟩ := sound_fieldOf s.dialect fullName f hv
  exact ⟨hmap, hgroup, hpacked, hmessage⟩

/-- A field put into an ascending list is there beside the others. -/
theorem FieldTable.perm_insertList? {f : Field} {l r : List Field}
    (h : insertList? f l = some r) : r.Perm (f :: l) := by
  induction l generalizing r with
  | nil =>
    rw [insertList?, Option.some.injEq] at h
    rw [← h]
  | cons g rest ih =>
    rw [insertList?] at h
    split at h
    · rw [Option.some.injEq] at h
      rw [← h]
    · split at h
      · cases h
      · obtain ⟨r', hr, rfl⟩ := Option.map_eq_some_iff.1 h
        exact (List.Perm.cons g (ih hr)).trans (List.Perm.swap f g rest)

/-- A field put into a table is there beside the others. -/
theorem FieldTable.perm_insert? {f : Field} {t after : FieldTable} (h : t.insert? f = some after) :
    after.toList.Perm (f :: t.toList) := by
  unfold insert? at h
  split at h
  · split at h
    · cases h
    · rename_i r hr
      obtain rfl := Option.some.inj h
      exact perm_insertList? hr
  · cases h

/-- A field added to a table is there beside the others. -/
theorem perm_addField {t after : FieldTable} {f : Declaration.Field} {field : Field}
    (h : addField t f field = .ok after) : after.toList.Perm (field :: t.toList) := by
  unfold addField at h
  split at h
  · cases h
  · rename_i inserted hinsert
    split at h
    · cases h
    · obtain rfl := Except.ok.inj h
      exact FieldTable.perm_insert? hinsert

/-- The type that a declaration of a message stands for is sound. -/
theorem Scope.sound_of_message {s : Scope} {fullName : String} {path : List Nat}
    {m : Declaration.MessageType} {t : MessageType} (h : s.message fullName path m = .ok t) :
    t.Sound := by
  unfold Scope.message at h
  obtain ⟨fields, hfields, h⟩ := bind_eq_ok.1 h
  obtain rfl := Except.ok.inj h
  -- The fields are added to the table one after another, and all that are there are sound.
  refine foldlM_invariant (I := fun table : FieldTable => ∀ f ∈ table.toList, f.Sound)
    ?_ (fun _ hf => absurd hf List.not_mem_nil) hfields
  intro table e after hsound hstep g hg
  obtain ⟨field, hfield, hadd⟩ := bind_eq_ok.1 hstep
  rcases List.mem_cons.1 ((perm_addField hadd).mem_iff.1 hg) with rfl | hg
  · exact sound_of_field hfield
  · exact hsound g hg

namespace Resolved

/-- The message types resolved so far are sound. -/
def Sound (r : Resolved) : Prop :=
  ∀ t ∈ r.messages, t.Sound

/-- An item leaves the resolved types sound. -/
theorem sound_of_addItem {s : Scope} {r r' : Resolved} {item : Item} (hr : r.Sound)
    (h : addItem s r item = .ok r') : r'.Sound := by
  unfold addItem at h
  split at h
  case h_1 m _ =>
    obtain ⟨t, ht, h⟩ := bind_eq_ok.1 h
    obtain rfl := Except.ok.inj h
    intro u hu
    rcases List.mem_append.1 hu with hu | hu
    · exact hr u hu
    · obtain rfl := List.mem_singleton.1 hu
      exact Scope.sound_of_message ht
  all_goals
    -- Nothing else changes the message types.
    first
      | obtain ⟨_, -, h⟩ := bind_eq_ok.1 h
        obtain rfl := Except.ok.inj h
        exact hr
      | obtain rfl := Except.ok.inj h
        exact hr

/-- A file leaves the resolved types sound. -/
theorem sound_of_addFile {definitions : Definitions} {files : List Declaration.File}
    {r r' : Resolved} {f : Declaration.File} (hr : r.Sound)
    (h : addFile definitions files r f = .ok r') : r'.Sound := by
  unfold addFile at h
  obtain ⟨-, -, h⟩ := bind_eq_ok.1 h
  obtain ⟨dialect, -, h⟩ := bind_eq_ok.1 h
  exact foldlM_invariant (fun _ _ _ hb hstep => sound_of_addItem hb hstep) hr h

/-- Extensions do not change the fields of the types. -/
theorem sound_pool {r : Resolved} (hr : r.Sound) : r.pool.Sound := by
  intro t ht
  simp only [pool, List.mem_map, Prod.exists] at ht
  obtain ⟨u, i, hmem, rfl⟩ := ht
  exact hr u (List.mem_of_getElem? (List.mem_zipIdx_iff_getElem?.1 hmem))

end Resolved

/-- The types of a pool that a descriptor set declares are sound. -/
theorem Pool.sound_of_decode {bytes : List UInt8} {p : Pool} (h : Pool.decode bytes = .ok p) :
    p.Sound := by
  unfold Pool.decode at h
  split at h
  · cases h
  · unfold Pool.ofFiles at h
    obtain ⟨definitions, -, h⟩ := bind_eq_ok.1 h
    obtain ⟨r, hr, h⟩ := bind_eq_ok.1 h
    obtain ⟨-, -, h⟩ := bind_eq_ok.1 h
    obtain rfl := Except.ok.inj h
    refine Resolved.sound_pool ?_
    exact foldlM_invariant (fun _ _ _ hb hstep => Resolved.sound_of_addFile hb hstep)
      (fun _ ht => absurd ht List.not_mem_nil) hr

end ColumnarRecords.Descriptor

namespace ColumnarRecords.Schema

/-- The types of a schema that comes from a descriptor set are sound. -/
theorem sound_of_ofDescriptorSet {bytes : List UInt8} {name : String} {s : Schema}
    (h : ofDescriptorSet bytes name = .ok s) : s.pool.Sound := by
  unfold ofDescriptorSet at h
  split at h
  · cases h
  · rename_i pool hpool
    simp only [ofPool] at h
    split at h
    · cases h
    · obtain rfl := Except.ok.inj h
      exact Descriptor.Pool.sound_of_decode hpool

end ColumnarRecords.Schema
