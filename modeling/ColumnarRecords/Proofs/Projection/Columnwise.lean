import ColumnarRecords.Projection.Materialize
import ColumnarRecords.Proofs.Descriptor.Sound
import ColumnarRecords.Proofs.Message.Edit
import ColumnarRecords.Proofs.Projection.Exact

/-!
# What a column does to a message

A column is read into a message that the columns before it have begun. Whether it can be read, and
what reading it does, is fixed by its own bytes all the same: a known column fails, is empty and
does nothing, or assigns its field (`Plan.addKnown_cases`), and the column of all other fields fails
or makes an edit (`Plan.addUnknowns_cases`), whatever the message is by then.

So the known columns are read exactly if each of them is (`Plan.exists_foldlM_addKnown_iff`), and
what they leave under a number is what those of this number leave there, if no other field clears it
(`Plan.find?_foldlM_addKnown`). Columns that a plan does not read never matter
(`Plan.materialize_congr`). -/

namespace ColumnarRecords

open Descriptor Wire Message

/-- The record holds bytes in a column. -/
def Record.IsFilled (r : Record) (column : Nat) : Prop :=
  ∃ bytes, r.column? column = some bytes ∧ bytes ≠ []

/-- Folds of steps that agree on the elements of a list agree. -/
theorem foldlM_congr {α β ε : Type} {f g : β → α → Except ε β} {l : List α}
    (h : ∀ a ∈ l, ∀ b, f b a = g b a) (b : β) : l.foldlM f b = l.foldlM g b := by
  induction l generalizing b with
  | nil => rfl
  | cons a rest ih =>
    rw [List.foldlM_cons, List.foldlM_cons, h a List.mem_cons_self b]
    refine congrArg _ (funext fun b' => ?_)
    exact ih (fun a' ha' => h a' (List.mem_cons_of_mem a ha')) b'

/-- What a field holds after a column's bytes are decoded into it is what its old value becomes, or
there is a fault, which does not depend on the message. -/
theorem Column.readField_uniform (p : Pool) (f : Field) (bytes : List UInt8) :
    (∃ fault, ∀ m, Column.readField p f bytes m = .error fault) ∨
      ∃ change : Value → Value, ∀ m, Column.readField p f bytes m = .ok (change (m.get f)) := by
  unfold Column.readField
  cases f.arity with
  | single =>
    cases Column.readSingle p f bytes with
    | error fault => exact .inl ⟨fault, fun _ => rfl⟩
    | ok v => exact .inr ⟨fun _ => v, fun _ => rfl⟩
  | list =>
    by_cases hgroup : f.isGroup = true
    · exact .inl ⟨.repeatedGroup, fun _ => if_pos hgroup⟩
    simp only [if_neg hgroup]
    cases Column.readAll (Column.readValue p f.kind) bytes with
    | error fault => exact .inl ⟨fault, fun _ => rfl⟩
    | ok values =>
      exact .inr ⟨fun old => .list (old.elements ++ values), fun _ => rfl⟩
  | map entry =>
    simp only
    cases Column.readAll (Column.readEntry p entry) bytes with
    | error fault => exact .inl ⟨fault, fun _ => rfl⟩
    | ok entries =>
      exact .inr ⟨fun old => .map (Column.insertAll entries old.entries), fun _ => rfl⟩

namespace Plan

variable {p : Plan} {r : Record}

/-- A known column fails whatever the message, is empty and leaves every message as it is, or holds
bytes and assigns its field. -/
theorem addKnown_cases (p : Plan) (r : Record) (known : Nat × Field) :
    (∃ e, ∀ m, p.addKnown r m known = .error e) ∨
      (r.column? known.1 = some [] ∧ ∀ m, p.addKnown r m known = .ok m) ∨
      (r.IsFilled known.1 ∧ ∃ change : Value → Value, ∀ m,
        p.addKnown r m known = .ok (m.assign p.schema.type known.2 (change (m.get known.2)))) := by
  unfold addKnown bytesOf
  cases hcolumn : r.column? known.1 with
  | none => exact .inl ⟨_, fun _ => rfl⟩
  | some bytes =>
    by_cases hempty : bytes = []
    · subst hempty
      exact .inr (.inl ⟨rfl, fun _ => rfl⟩)
    simp only [if_neg hempty, Column.decodeField_eq]
    obtain ⟨fault, hfail⟩ | ⟨change, hok⟩ :=
      Column.readField_uniform p.schema.pool known.2 bytes
    · exact .inl ⟨.decode known.2.fullName known.1 fault, fun m => by rw [hfail]; rfl⟩
    · exact .inr (.inr ⟨⟨bytes, hcolumn, hempty⟩, change, fun m => by rw [hok]; rfl⟩)

/-- The column of all other fields fails whatever the message, or makes the edit that decodes its
bytes. -/
theorem addUnknowns_cases (p : Plan) (r : Record) (column : Nat) :
    (∃ e, ∀ m, p.addUnknowns r m column = .error e) ∨
      ∃ g bytes, IsEdit p.schema.type g ∧ r.column? column = some bytes ∧
        decode p.schema.pool p.schema.index bytes = .ok (g .empty) ∧
        ∀ m, p.addUnknowns r m column = .ok (g m) := by
  unfold addUnknowns bytesOf
  cases r.column? column with
  | none => exact .inl ⟨_, fun _ => rfl⟩
  | some bytes =>
    simp only
    obtain ⟨fault, hfail⟩ | ⟨g, hg, hok⟩ := merge_uniform p.schema.pool p.schema.index bytes
    · exact .inl ⟨.unknownFields column fault, fun m => by rw [hfail]⟩
    · exact .inr ⟨g, bytes, hg, rfl, hok .empty, fun m => by rw [hok]⟩

/-- A known column is read into one message if it is read into another. -/
theorem exists_addKnown_iff (known : Nat × Field) (m m' : Message) :
    (∃ m₁, p.addKnown r m known = .ok m₁) ↔ ∃ m₁, p.addKnown r m' known = .ok m₁ := by
  obtain ⟨e, hfail⟩ | ⟨-, hok⟩ | ⟨-, change, hok⟩ := addKnown_cases p r known
  · rw [hfail, hfail]
  · rw [hok, hok]
    exact ⟨fun _ => ⟨m', rfl⟩, fun _ => ⟨m, rfl⟩⟩
  · rw [hok, hok]
    exact ⟨fun _ => ⟨_, rfl⟩, fun _ => ⟨_, rfl⟩⟩

/-- Known columns are read one after another exactly if each of them is read by itself. -/
theorem exists_foldlM_addKnown_iff {knowns : List (Nat × Field)} {m : Message} :
    (∃ m₁, knowns.foldlM (p.addKnown r) m = .ok m₁) ↔
      ∀ known ∈ knowns, ∃ m₁, p.addKnown r .empty known = .ok m₁ := by
  induction knowns generalizing m with
  | nil => exact ⟨fun _ _ h => absurd h List.not_mem_nil, fun _ => ⟨m, rfl⟩⟩
  | cons known others ih =>
    rw [List.forall_mem_cons, List.foldlM_cons, ← exists_addKnown_iff known m]
    constructor
    · rintro ⟨m₁, h⟩
      obtain ⟨m₂, hone, hrest⟩ := bind_eq_ok.1 h
      exact ⟨⟨m₂, hone⟩, ih.1 ⟨m₁, hrest⟩⟩
    · rintro ⟨⟨m₂, hone⟩, hothers⟩
      obtain ⟨m₁, hrest⟩ := ih.2 hothers
      exact ⟨m₁, bind_eq_ok.2 ⟨m₂, hone, hrest⟩⟩

/-- A known column leaves the same under a number in messages that held the same there. -/
theorem find?_addKnown_congr {known : Nat × Field} {n : Nat} {m m' m₁ : Message}
    (hm : m.find? n = m'.find? n) (h : p.addKnown r m known = .ok m₁) :
    ∃ m₁', p.addKnown r m' known = .ok m₁' ∧ m₁.find? n = m₁'.find? n := by
  obtain ⟨e, hfail⟩ | ⟨-, hok⟩ | ⟨-, change, hok⟩ := addKnown_cases p r known
  · rw [hfail] at h
    cases h
  · rw [hok] at h
    obtain rfl := Except.ok.inj h
    exact ⟨m', hok m', hm⟩
  · rw [hok] at h
    obtain rfl := Except.ok.inj h
    refine ⟨_, hok m', ?_⟩
    rw [find?_assign, find?_assign, hm]
    by_cases hnumber : n = known.2.number
    · subst hnumber
      rw [get_congr hm]
    · rw [if_neg hnumber, if_neg hnumber]

/-- A known column leaves alone what is under the number of another field, unless it clears it. -/
theorem find?_addKnown_of_ne {known : Nat × Field} {n : Nat} {m m₁ : Message}
    (hne : known.2.number ≠ n) (hn : n ∉ p.schema.type.siblings known.2)
    (h : p.addKnown r m known = .ok m₁) : m₁.find? n = m.find? n := by
  obtain ⟨e, hfail⟩ | ⟨-, hok⟩ | ⟨-, change, hok⟩ := addKnown_cases p r known
  · rw [hfail] at h
    cases h
  · rw [hok] at h
    rw [Except.ok.inj h]
  · rw [hok] at h
    rw [← Except.ok.inj h, find?_assign, if_neg hne.symm, if_neg hn]

/-- What the known columns leave under a number is what those of this number leave there, if no
field of the others clears it. -/
theorem find?_foldlM_addKnown {knowns : List (Nat × Field)} {n : Nat}
    (hn : ∀ known ∈ knowns, n ∉ p.schema.type.siblings known.2) {m m' m₁ : Message}
    (hm : m.find? n = m'.find? n) (h : knowns.foldlM (p.addKnown r) m = .ok m₁) :
    ∃ m₂, (knowns.filter fun known => known.2.number = n).foldlM (p.addKnown r) m' = .ok m₂ ∧
      m₁.find? n = m₂.find? n := by
  -- The two messages differ elsewhere, as only one of them has had the columns of other numbers.
  induction knowns generalizing m m' with
  | nil =>
    obtain rfl := Except.ok.inj h
    exact ⟨m', rfl, hm⟩
  | cons known others ih =>
    obtain ⟨hhead, hothers⟩ := List.forall_mem_cons.1 hn
    rw [List.foldlM_cons] at h
    obtain ⟨m₂, hone, hrest⟩ := bind_eq_ok.1 h
    by_cases hnumber : known.2.number = n
    · obtain ⟨m₂', hone', hm₂⟩ := find?_addKnown_congr hm hone
      obtain ⟨m₃, hfold, hfind⟩ := ih hothers hm₂ hrest
      refine ⟨m₃, ?_, hfind⟩
      rw [List.filter_cons_of_pos (by simpa using hnumber), List.foldlM_cons]
      exact bind_eq_ok.2 ⟨m₂', hone', hfold⟩
    · have hm₂ := (find?_addKnown_of_ne hnumber hhead hone).trans hm
      rw [List.filter_cons_of_neg (by simpa using hnumber)]
      exact ih hothers hm₂ hrest

/-- A record is read exactly if its known columns are, and then the column of all other fields if
the plan has it. -/
theorem materialize_eq_ok {m : Message} :
    p.materialize r = .ok m ↔
      ∃ m₀, p.known.foldlM (p.addKnown r) .empty = .ok m₀ ∧
        ((p.unknownsColumn = none ∧ m = m₀) ∨
          ∃ column, p.unknownsColumn = some column ∧ p.addUnknowns r m₀ column = .ok m) := by
  unfold materialize
  cases p.known.foldlM (p.addKnown r) Message.empty with
  | error e => simp
  | ok m₀ =>
    have hone : ∀ column, [column].foldlM (p.addUnknowns r) m₀ = p.addUnknowns r m₀ column := by
      intro column
      rw [List.foldlM_cons]
      cases p.addUnknowns r m₀ column <;> rfl
    cases p.unknownsColumn with
    | none => simp [eq_comm, pure, Except.pure]
    | some column => simp [hone]

/-- Records that give the same in the columns that a plan reads give the same message. -/
theorem materialize_congr {r' : Record}
    (h : ∀ column ∈ p.columns, bytesOf r' column = bytesOf r column) :
    p.materialize r' = p.materialize r := by
  have hknown : p.known.foldlM (p.addKnown r') Message.empty =
      p.known.foldlM (p.addKnown r) Message.empty := by
    refine foldlM_congr (fun known hmem m => ?_) _
    unfold addKnown
    rw [h known.1 (List.mem_append_left _ (List.mem_map_of_mem hmem))]
  have hunknowns : ∀ m, p.unknownsColumn.toList.foldlM (p.addUnknowns r') m =
      p.unknownsColumn.toList.foldlM (p.addUnknowns r) m := by
    refine fun m => foldlM_congr (fun column hmem m => ?_) m
    unfold addUnknowns
    rw [h column (List.mem_append_right _ hmem)]
  unfold materialize
  rw [hknown]
  cases p.known.foldlM (p.addKnown r) Message.empty with
  | error e => rfl
  | ok m => exact hunknowns m

end Plan

end ColumnarRecords
