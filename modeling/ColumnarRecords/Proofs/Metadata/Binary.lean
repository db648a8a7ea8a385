import ColumnarRecords.Metadata.Basic
import ColumnarRecords.Proofs.Message.Plain
import ColumnarRecords.Proofs.Message.Run
import ColumnarRecords.Proofs.Wire.RoundTrip

/-!
# The binary form of metadata is read back

Metadata is read back from its binary form, if the class name is no longer than a word can say
(`Metadata.decode_encode`). The form is a field for the class name and one for each field number, so
reading it is one step of the loop over fields for each of them.
-/

namespace ColumnarRecords

open Wire Wire.Layout

/-- The loop goes on after a step that has taken some of the bytes. -/
theorem Wire.whileLonger_of_step {σ ε : Type} {stop : Nat}
    {step : σ → List UInt8 → Except ε (σ × List UInt8)} {s s' : σ} {input rest : List UInt8}
    (hlong : stop < input.length) (hstep : step s input = .ok (s', rest))
    (hshort : rest.length < input.length) :
    whileLonger stop step s input = whileLonger stop step s' rest := by
  rw [whileLonger, if_neg (by omega), hstep]
  exact if_pos hshort

namespace Metadata

/-- The class name's bytes are as many as a word can say. -/
def Encodable (m : Metadata) : Prop :=
  ∀ name, m.className = some name → (Text.Utf8.encode name).length < 2 ^ 64

/-- A class name that is written is read. -/
theorem readField_className {name : String} (h : (Text.Utf8.encode name).length < 2 ^ 64)
    (budget : Nat) (fields : List (Nat × Node)) (rest : List UInt8) :
    Layout.readField catalogue budget "ColumnarMetadata" fields
        (encodeKey 1 .lengthDelimited ++ encodeDelimited (Text.Utf8.encode name) ++ rest) =
      .ok (fields ++ [(1, .text name)], rest) := by
  have hnumber : 1 ≤ 1 ∧ 1 ≤ Descriptor.maxFieldNumber := by decide
  have hkey := readKey_encodeKey hnumber .lengthDelimited
    (encodeDelimited (Text.Utf8.encode name) ++ rest)
  have htext := readText_encode h rest
  rw [List.append_assoc, Layout.readField, hkey]
  simp only [catalogue, if_true, List.find?_cons, beq_self_eq_true, readLeaf, readOne, expect,
    htext]
  rfl

/-- A field number that is written is read. -/
theorem readField_fieldId (id : Int32) (budget : Nat) (fields : List (Nat × Node))
    (rest : List UInt8) :
    Layout.readField catalogue budget "ColumnarMetadata" fields
        (encodeKey 2 .varint ++ encodeVarint (signExtend id) ++ rest) =
      .ok (fields ++ [(2, .number (signExtend id))], rest) := by
  have hnumber : 1 ≤ 2 ∧ 2 ≤ Descriptor.maxFieldNumber := by decide
  have hkey := readKey_encodeKey hnumber .varint (encodeVarint (signExtend id) ++ rest)
  have hvalue := readVarint_encodeVarint (signExtend id) rest
  rw [List.append_assoc, Layout.readField, hkey]
  simp only [catalogue, if_true, List.find?_cons, Nat.reduceBEq, readLeaf, readOne, expect, hvalue]
  rfl

/-- Field numbers that are written are read one after another. -/
theorem whileLonger_fieldIds (ids : List Int32) (budget : Nat) (fields : List (Nat × Node)) :
    whileLonger 0 (Layout.readField catalogue budget "ColumnarMetadata") fields
        (ids.flatMap fun id => encodeKey 2 .varint ++ encodeVarint (signExtend id)) =
      .ok (fields ++ ids.map fun id => (2, .number (signExtend id)), []) := by
  induction ids generalizing fields with
  | nil =>
    rw [List.flatMap_nil, List.map_nil, List.append_nil, whileLonger]
    rfl
  | cons id rest ih =>
    -- A field has a byte at least, that of its key, so the loop goes on.
    have hkey := Message.length_encodeKey_pos 2 .varint
    rw [List.flatMap_cons, whileLonger_of_step _ (readField_fieldId id _ _ _) _, ih,
      List.append_assoc]
    · rfl
    · simp only [List.length_append]
      omega
    · simp only [List.length_append]
      omega

/-- What is read of the binary form. -/
def nodes (m : Metadata) : List (Nat × Node) :=
  (m.className.toList.map fun name => (1, .text name)) ++
    m.fieldIds.map fun id => (2, .number (signExtend id))

/-- What is read of the binary form is the metadata. -/
theorem ofFields_nodes (m : Metadata) : ofFields m.nodes = m := by
  obtain ⟨className, ids⟩ := m
  -- The field numbers hold no text, and the class name holds no number.
  have hname : Node.text? (nodes ⟨className, ids⟩) 1 = className := by
    have htexts : (ids.filterMap fun _ => (none : Option String)) = [] :=
      List.filterMap_eq_nil_iff.2 fun _ _ => rfl
    unfold Node.text? nodes
    rw [List.filterMap_append, List.filterMap_map, List.filterMap_map]
    cases className with
    | none => exact congrArg List.getLast? htexts
    | some name => exact congrArg (fun texts => (name :: texts).getLast?) htexts
  have hids : Node.int32s (nodes ⟨className, ids⟩) 2 = ids := by
    have hnumbers : (ids.filterMap fun id => some (signExtend id)) = ids.map signExtend :=
      congrFun List.filterMap_eq_map' ids
    have hwords : (ids.map signExtend).map (fun n => n.toUInt32.toInt32) = ids :=
      List.map_map.trans
        ((List.map_congr_left fun id _ => low32_signExtend id).trans (List.map_id ids))
    unfold Node.int32s Node.numbers nodes
    rw [List.filterMap_append, List.filterMap_map, List.filterMap_map]
    refine Eq.trans (congrArg (List.map _) ?_) hwords
    cases className <;> exact hnumbers
  rw [ofFields, hname, hids]

/-- Metadata is read back from its binary form. -/
theorem decode_encode {m : Metadata} (h : m.Encodable) : decode (encode m) = .ok m := by
  have hread : Layout.decode catalogue "ColumnarMetadata" (encode m) = .ok m.nodes := by
    unfold Layout.decode encode nodes
    cases hname : m.className with
    | none =>
      simp only [List.nil_append]
      rw [whileLonger_fieldIds]
      rfl
    | some name =>
      have hkey := Message.length_encodeKey_pos 1 .lengthDelimited
      simp only
      rw [whileLonger_of_step _ (readField_className (h name hname) _ _ _) _, whileLonger_fieldIds]
      · rfl
      · simp only [List.length_append]
        omega
      · simp only [List.length_append]
        omega
  rw [decode, hread]
  exact congrArg Except.ok (ofFields_nodes m)

end Metadata

end ColumnarRecords
