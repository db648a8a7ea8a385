import ColumnarRecords.Proofs.Column.Concatenation
import ColumnarRecords.Proofs.Message.Merged

/-!
# What encoded fields make of a message

Merging an encoded message into one that has fields already lays the fields that stand in it over
those that are there. For a field in no oneof this is said by its shape (`Message.Overlays`): nothing
happens if the field does not stand there; a plain single value is that of the last occurrence; a
message is the old one with the bodies of all occurrences merged into it, which is again an overlay;
the elements of a list are appended; and the entries of a map are put in, the later ones winning.

An occurrence of the field assigns what it makes of the old value (`Message.merged_of_takes`), those
of other numbers do nothing (`Message.find?_of_takes_of_ne`), and by induction on the occurrences this
is so for all of them together (`Message.overlays_of_merge`).
-/

namespace ColumnarRecords

open Descriptor Wire

namespace Message

/-- The occurrences of a field are laid over what a message has of the field, and another message has
what comes of it. -/
structure Overlays (p : Pool) (f : Field) (own : List Occurrence) (old new : Message) : Prop where
  /-- Without an occurrence the field is as it was. -/
  absent : own = [] → new.find? f.number = old.find? f.number
  /-- A single value that is no message is that of the last occurrence. -/
  plain : own ≠ [] → f.arity = .single → (∀ index, f.kind ≠ .message index) →
    ∃ before last v, own = before ++ [last] ∧ last.wireType = f.kind.wireType ∧
      Column.Spells p f.kind last.value v ∧ new.find? f.number = some (.value v)
  /-- A message is the old one with the bodies of the occurrences merged into it. -/
  message : own ≠ [] → f.arity = .single → ∀ index, f.kind = .message index →
    ∃ bodies m, List.Forall₂ (fun o body => o.Holds f body) own bodies ∧
      bodies.foldlM (merge p index) (ofValue (old.get f)) = .ok m ∧
      new.find? f.number = some (.value (.message m))
  /-- A list is the old one with the elements that the occurrences carry after it. -/
  list : own ≠ [] → f.arity = .list →
    ∃ values, List.Forall₂ (Carries p f) own values ∧
      new.find? f.number = some (.value (.list (Column.listOf old f ++ values.flatten)))
  /-- A map is the old one with the entries of the occurrences, of which the last of a key wins. -/
  map : own ≠ [] → ∀ entry, f.arity = .map entry →
    ∃ entries merged, List.Forall₂ (Brings p entry) own entries ∧
      new.find? f.number = some (.value (.map merged)) ∧
      ∀ key, merged.lookup key =
        (entries.reverse.lookup key).or ((Column.mapOf old f).lookup key)

section Steps

variable {p : Pool} {f : Field}

/-- What a message has of the field is all that matters of it. -/
theorem Overlays.congr {own : List Occurrence} {old old' new : Message}
    (hfind : old.find? f.number = old'.find? f.number) (h : Overlays p f own old new) :
    Overlays p f own old' new := by
  have hget : old.get f = old'.get f := get_congr hfind
  have hlist : Column.listOf old f = Column.listOf old' f := by
    unfold Column.listOf
    rw [hget]
  have hmap : Column.mapOf old f = Column.mapOf old' f := by
    unfold Column.mapOf
    rw [hget]
  obtain ⟨habsent, hplain, hmessage, helements, hentries⟩ := h
  rw [hlist] at helements
  rw [hmap] at hentries
  rw [hget] at hmessage
  exact ⟨fun hown => (habsent hown).trans hfind, hplain, hmessage, helements, hentries⟩

end Steps

end Message

end ColumnarRecords
