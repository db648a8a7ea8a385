import ColumnarRecords.Proofs.Message.Entry
import ColumnarRecords.Proofs.Message.Order
import ColumnarRecords.Proofs.Wire.Uniform

/-!
# Merging is editing

Encoded bytes stand for a change of messages: whether they can be merged, and with which fault they
cannot, is the same for every message that they are merged into, and so is what they do to it
(`Message.merge_uniform`). The change is an edit (`Message.IsEdit`): fields are assigned what their
old values become, and values of unknown numbers are kept, one after another.

So what an edit leaves under a number depends on what was there under this number alone
(`Message.IsEdit.find?_congr`), and an edit that makes nothing of a number in one message leaves it
alone in all messages, unless the field could have been cleared
(`Message.IsEdit.find?_of_untouched`).
-/

namespace ColumnarRecords

open Descriptor Wire

/-- Assigning other fields of the type does not clear the field of a number. -/
def Descriptor.MessageType.Spares (t : MessageType) (number : Nat) : Prop :=
  ∀ g n, t.find? n = some g → number ∉ t.siblings g

/-- A field that is in no oneof is not cleared. -/
theorem Descriptor.MessageType.spares_of_oneof {t : MessageType} {f : Field}
    (hf : t.fields.find? f.number = some f) (honeof : f.oneof = none) : t.Spares f.number := by
  intro g n hg hmem
  unfold MessageType.siblings at hmem
  cases hi : g.oneof with
  | none =>
    rw [hi] at hmem
    exact List.not_mem_nil hmem
  | some i =>
    -- What is cleared is a member of the oneof, and the field of this number is in none.
    rw [hi] at hmem
    obtain ⟨other, hother, hnumber⟩ := List.mem_map.1 hmem
    obtain ⟨hin, hcond⟩ := List.mem_filter.1 hother
    have hsame : t.fields.find? f.number = some other :=
      FieldTable.find?_eq_some_iff.2 ⟨hin, hnumber⟩
    obtain rfl := Option.some.inj (hf.symm.trans hsame)
    rw [honeof] at hcond
    exact Bool.false_ne_true hcond

namespace Message

/-- A change that decoding can make to messages of a type. -/
inductive IsEdit (t : MessageType) : (Message → Message) → Prop where
  /-- The message is left as it is. -/
  | same : IsEdit t fun m => m
  /-- A field is assigned what its old value becomes, and the other members of its oneof are
  cleared. -/
  | assign {f : Field} (hf : t.find? f.number = some f) (change : Value → Value) :
    IsEdit t fun m => m.assign t f (change (m.get f))
  /-- A value of a number that the type does not know is kept. -/
  | keep {number : Nat} (h : t.find? number = none) (v : WireValue) :
    IsEdit t fun m => m.addUnknown number v
  /-- One edit is made after another. -/
  | after {g h : Message → Message} (hg : IsEdit t g) (hh : IsEdit t h) : IsEdit t fun m => h (g m)

/-- Edits compose. -/
theorem composes_isEdit (t : MessageType) : Composes (IsEdit t) :=
  ⟨.same, fun _ _ hg hh => .after hg hh⟩

section Uniform

variable {σ : Type} {P : (σ → σ) → Prop}

/-- Reading after checking a wire type is uniform. -/
theorem uniform_expecting {read : σ → Reader σ} (h : Uniform P read)
    (expected actual : WireType) : Uniform P fun s => expecting expected actual (read s) := by
  intro input
  unfold expecting
  cases expect expected actual with
  | error f => exact .inl ⟨f, fun _ => rfl⟩
  | ok _ => exact h input

/-- Reading a key and going on uniformly is uniform. -/
theorem uniform_keyed {step : σ → Nat → WireType → Reader σ}
    (h : ∀ n w, Uniform P fun s => step s n w) : Uniform P (keyed step) := by
  intro input
  unfold keyed
  cases readKey input with
  | error f => exact .inl ⟨f, fun _ => rfl⟩
  | ok r => exact h r.1.1 r.1.2 r.2

end Uniform

/-- The reader of fields inside a nested value is uniform, if there is one. -/
def NestedUniform (nested : Option FieldReader) : Prop :=
  ∀ step, nested = some step → ∀ index number w,
    Uniform (fun _ => True) fun m => step index m number w

/-- Reading the elements of a list is uniform. -/
theorem uniform_readElements (nested : Option FieldReader) (f : Field) (w : WireType) :
    Uniform (fun _ => True) (readElements nested f w) := by
  have helement : ∀ w, Uniform (fun _ => True) (readElement nested f w) := by
    intro w
    -- An element is merged into nothing, so only the list it is appended to is a state.
    rw [show readElement nested f w = _ from funext fun values => readElement_eq_andThen values]
    exact .put fun _ => trivial
  unfold readElements
  by_cases hshare : w = .lengthDelimited ∧ f.kind.isPackable = true
  · simp only [if_pos hshare]
    exact (helement f.kind.wireType).delimited composes_true
  · simp only [if_neg hshare]
    exact helement w

section Uniform

variable {nested : Option FieldReader} (hlocal : NestedLocal nested) (h : NestedUniform nested)
include hlocal h

/-- Merging a nested value is uniform. -/
theorem uniform_readNested (f : Field) (index : Nat) (w : WireType) :
    Uniform (fun _ => True) (readNested nested f index w) := by
  cases nested with
  | none =>
    rw [show readNested none f index w = _ from funext (readNested_none f index w)]
    exact .const fun _ => trivial
  | some step =>
    have hread : ∀ n w, Uniform (fun _ => True) fun m => step index m n w := h step rfl index
    rw [show readNested (some step) f index w = _ from funext (readNested_some step f index w)]
    unfold readInside
    by_cases hgroup : f.isGroup = true
    · simp only [if_pos hgroup]
      have hloop := Uniform.untilEndGroup composes_true (hlocal step rfl index) hread f.number
      exact uniform_expecting hloop .startGroup w
    · simp only [if_neg hgroup]
      have hloop := (uniform_keyed hread).delimited composes_true
      exact uniform_expecting hloop .lengthDelimited w

/-- Merging a single value is uniform. -/
theorem uniform_readSingle (f : Field) (w : WireType) :
    Uniform (fun _ => True) (readSingle nested f w) := by
  cases hkind : f.kind with
  | scalar s =>
    rw [show readSingle nested f w = _ from funext (readSingle_of_scalar hkind)]
    exact .const fun _ => trivial
  | enum index =>
    rw [show readSingle nested f w = _ from funext (readSingle_of_enum hkind)]
    exact .const fun _ => trivial
  | message index =>
    rw [show readSingle nested f w = _ from funext (readSingle_of_message hkind)]
    exact (uniform_readNested hlocal h f index w).part fun _ _ => trivial

/-- Merging a field of the type is an edit. -/
theorem uniform_readKnown (p : Pool) (budget : Nat) {t : MessageType} {f : Field}
    (hf : t.find? f.number = some f) (w : WireType) :
    Uniform (IsEdit t) fun m => readKnown p nested budget t f m w := by
  cases harity : f.arity with
  | single =>
    simp only [readKnown_of_single harity]
    exact (uniform_readSingle hlocal h f w).part fun change _ => .assign hf change
  | list =>
    simp only [readKnown_of_list harity]
    refine (uniform_readElements nested f w).part fun change _ => ?_
    -- The list is that of the old value, so its change is one of the value.
    exact .assign hf fun old => .list (change old.elements)
  | map entry =>
    simp only [readKnown_of_map harity]
    refine .put fun e => ?_
    exact .assign hf fun old => .map (MapKey.insert e.1 e.2 old.entries)

/-- Merging a field is an edit. -/
theorem uniform_readFieldWith (p : Pool) (budget index number : Nat) (w : WireType) :
    Uniform (IsEdit (p.message index)) fun m => readFieldWith p nested budget index m number w := by
  cases hf : (p.message index).find? number with
  | some f =>
    simp only [readFieldWith_of_some hf]
    obtain ⟨-, rfl⟩ := MessageType.mem_of_find? hf
    exact uniform_readKnown hlocal h p budget hf w
  | none =>
    simp only [readFieldWith_of_none hf]
    exact .put fun v => .keep hf v

end Uniform

/-- Merging a field is an edit, however deep its value is nested. -/
theorem uniform_readField (p : Pool) (budget index number : Nat) (w : WireType) :
    Uniform (IsEdit (p.message index)) fun m => readField p budget index m number w := by
  induction budget generalizing index number w with
  | zero =>
    have hnone : NestedUniform none := by
      intro step h
      cases h
    exact uniform_readFieldWith nestedLocal_none hnone p 0 index number w
  | succ budget ih =>
    -- Of what happens inside a nested message it does not matter that it is an edit again.
    have hnested : NestedUniform (some (readField p budget)) := by
      intro step h index number w
      obtain rfl := Option.some.inj h
      exact (ih index number w).mono fun _ _ => trivial
    exact uniform_readFieldWith (nestedLocal_readField p budget) hnested p (budget + 1) index
      number w

/-- Bytes cannot be merged into any message, for the same reason, or they make the same edit to
every message. -/
theorem merge_uniform (p : Pool) (index : Nat) (bytes : List UInt8) :
    (∃ f, ∀ m, merge p index m bytes = .error f) ∨
      ∃ g, IsEdit (p.message index) g ∧ ∀ m, merge p index m bytes = .ok (g m) := by
  have hfields : Uniform (IsEdit (p.message index)) (mergeFields p index) :=
    (uniform_keyed (uniform_readField p nestingLimit index)).whileLonger (composes_isEdit _) 0
  obtain ⟨f, hfail⟩ | ⟨g, rest, hg, hok⟩ := hfields bytes
  · refine .inl ⟨f, fun m => ?_⟩
    rw [merge_eq_map, hfail]
    rfl
  · refine .inr ⟨g, hg, fun m => ?_⟩
    rw [merge_eq_map, hok]
    rfl

/-- What is found under another number than the one that a value is kept under. -/
theorem find?_addUnknown_of_ne (m : Message) {number n : Nat} (v : WireValue) (h : n ≠ number) :
    (m.addUnknown number v).find? n = m.find? n := by
  unfold addUnknown
  split <;> rw [find?_insert, if_neg h]

/-- Something is found under a number that a value is kept under. -/
theorem find?_addUnknown_ne_none (m : Message) (number : Nat) (v : WireValue) :
    (m.addUnknown number v).find? number ≠ none := by
  unfold addUnknown
  split <;> simp

/-- A field holds the same in messages that hold the same under its number. -/
theorem get_congr {f : Field} {m m' : Message} (h : m.find? f.number = m'.find? f.number) :
    m.get f = m'.get f := by
  unfold get value?
  rw [h]

namespace IsEdit

variable {t : MessageType} {g : Message → Message}

/-- Messages that hold the same under a number do so after an edit. -/
theorem find?_congr (hg : IsEdit t g) {n : Nat} {m m' : Message} (h : m.find? n = m'.find? n) :
    (g m).find? n = (g m').find? n := by
  induction hg generalizing m m' with
  | same => exact h
  | @assign f hf change =>
    rw [find?_assign, find?_assign, h]
    by_cases hn : n = f.number
    · subst hn
      rw [get_congr h]
    · rw [if_neg hn, if_neg hn]
  | @keep number hnumber v =>
    by_cases hn : n = number
    · subst hn
      simp only [addUnknown, h]
      split <;> simp only [find?_insert, if_true]
    · rw [find?_addUnknown_of_ne m v hn, find?_addUnknown_of_ne m' v hn, h]
  | after hg hh ihg ihh => exact ihh (ihg h)

/-- Edits keep a message in order. -/
theorem ascending (hg : IsEdit t g) {m : Message} (h : m.Ascending) : (g m).Ascending := by
  induction hg generalizing m with
  | same => exact h
  | assign hf change => exact ascending_assign h
  | keep hnumber v =>
    simp only [addUnknown]
    split <;> exact pairwise_insertEntry h
  | after hg hh ihg ihh => exact ihh (ihg h)

/-- If nothing is under some numbers after an edit of some message, the edit leaves the numbers alone
in every message, provided that whatever clears one of them is one of them. -/
theorem find?_of_untouched_of_closed (hg : IsEdit t g) {S : Nat → Prop}
    (hS : ∀ f, t.find? f.number = some f → ∀ n ∈ t.siblings f, S n → S f.number) {m₀ : Message}
    (h : ∀ n, S n → (g m₀).find? n = none) :
    ∀ n, S n → m₀.find? n = none ∧ ∀ m, (g m).find? n = m.find? n := by
  induction hg generalizing m₀ with
  | same => exact fun n hn => ⟨h n hn, fun _ => rfl⟩
  | @assign f hf change =>
    have hout : ¬S f.number := by
      intro hin
      have hnone := h f.number hin
      rw [find?_assign, if_pos rfl] at hnone
      cases hnone
    intro n hn
    have hne : n ≠ f.number := by
      rintro rfl
      exact hout hn
    have hsibling : n ∉ t.siblings f := fun hcleared => hout (hS f hf n hcleared hn)
    have hfind : ∀ m : Message, (m.assign t f (change (m.get f))).find? n = m.find? n := by
      intro m
      rw [find?_assign, if_neg hne, if_neg hsibling]
    exact ⟨(hfind m₀).symm.trans (h n hn), hfind⟩
  | @keep number hnumber v =>
    intro n hn
    have hne : n ≠ number := by
      rintro rfl
      exact find?_addUnknown_ne_none m₀ n v (h n hn)
    have hfind : ∀ m : Message, (m.addUnknown number v).find? n = m.find? n := fun m =>
      find?_addUnknown_of_ne m v hne
    exact ⟨(hfind m₀).symm.trans (h n hn), hfind⟩
  | after hg hh ihg ihh =>
    -- The second edit found nothing there, so the first one has left nothing there.
    have hsecond := ihh h
    have hfirst := ihg fun n hn => (hsecond n hn).1
    intro n hn
    exact ⟨(hfirst n hn).1, fun m => ((hsecond n hn).2 _).trans ((hfirst n hn).2 m)⟩

/-- If nothing is under a number after an edit of some message, the edit leaves the number alone in
every message, provided that assigning other fields does not clear it. -/
theorem find?_of_untouched (hg : IsEdit t g) {n : Nat}
    (hn : ∀ f, t.find? f.number = some f → n ∉ t.siblings f) {m₀ : Message}
    (h : (g m₀).find? n = none) : m₀.find? n = none ∧ ∀ m, (g m).find? n = m.find? n := by
  have hclosed : ∀ f, t.find? f.number = some f → ∀ k ∈ t.siblings f, k = n → f.number = n := by
    rintro f hf k hk rfl
    exact absurd hk (hn f hf)
  exact hg.find?_of_untouched_of_closed hclosed (fun k hk => hk ▸ h) n rfl

end IsEdit

end Message

end ColumnarRecords
