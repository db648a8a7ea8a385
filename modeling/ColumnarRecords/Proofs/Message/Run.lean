import ColumnarRecords.Proofs.Message.Merge
import ColumnarRecords.Proofs.Wire.RoundTrip

/-!
# Runs over written fields

Bytes that are written as fields one after another are read by steps one after another.
`Message.Run` says that steps take one state to another over such bytes, each of them taking the
value that was written, whatever follows it. Runs may be put together (`Run.append`), and each of
the three places in which fields stand is read as the run says: the whole of a message, a delimited
value (`Run.delimited`) and a group (`Run.untilEndGroup`). What is written is thus shown to be read
back field by field, without a look at where the fields stand.
-/

namespace ColumnarRecords

open Descriptor Wire

namespace Message

/-- Steps take a state to another over the fields that bytes are. -/
inductive Run {σ : Type} (step : σ → Nat → WireType → Reader σ) : σ → List UInt8 → σ → Prop where
  /-- There is no field. -/
  | nil (s : σ) : Run step s [] s
  /-- There is a field, and there may be others after it. -/
  | cons {s s' s'' : σ} {number : Nat} {w : WireType} {value bytes : List UInt8}
    (hnumber : 1 ≤ number ∧ number ≤ maxFieldNumber) (hw : w ≠ .endGroup)
    (hstep : ∀ rest, step s number w (value ++ rest) = .ok (s', rest))
    (h : Run step s' bytes s'') : Run step s (encodeKey number w ++ value ++ bytes) s''

/-- A key has a byte. -/
theorem length_encodeKey_pos (number : Nat) (w : WireType) : 0 < (encodeKey number w).length := by
  unfold encodeKey
  rw [varintOfNat]
  split <;> exact Nat.zero_lt_succ _

/-- A step is run on what its key was written for. -/
theorem keyed_encodeKey {σ : Type} (step : σ → Nat → WireType → Reader σ) (s : σ) {number : Nat}
    (hnumber : 1 ≤ number ∧ number ≤ maxFieldNumber) (w : WireType) (rest : List UInt8) :
    keyed step s (encodeKey number w ++ rest) = step s number w rest := by
  rw [keyed_eq_andThen, andThen, readKey_encodeKey hnumber]

/-- A loop over what was written as fields fails with the fault of the first one. -/
theorem whileLonger_of_error {σ : Type} {step : σ → Nat → WireType → Reader σ}
    (hlocal : ∀ s n w, Local (step s n w)) {s : σ} {number : Nat} {w : WireType}
    (hnumber : 1 ≤ number ∧ number ≤ maxFieldNumber) {value : List UInt8} {fault : Wire.Fault}
    (hfault : step s number w value = .error fault) {stop : Nat} (hstop : stop ≤ value.length) :
    whileLonger stop (keyed step) s (encodeKey number w ++ value) = .error fault := by
  have hpos := length_encodeKey_pos number w
  rw [whileLonger_eq (consumes_keyed hlocal), if_neg (by rw [List.length_append]; omega),
    keyed_encodeKey step s hnumber, hfault]

/-- What is delimited is what its content is read to in its place, which has to end where the
content does. -/
theorem delimited_encodeDelimited_eq {σ : Type} (step : σ → Reader σ) (s : σ) {bytes : List UInt8}
    (hlen : bytes.length < 2 ^ 64) (rest : List UInt8) :
    delimited step s (encodeDelimited bytes ++ rest) =
      match whileLonger rest.length step s (bytes ++ rest) with
      | .error f => .error f
      | .ok (s, after) =>
        if after.length = rest.length then .ok (s, after) else .error .lengthExceeded := by
  have hcount : (UInt64.ofNat bytes.length).toNat = bytes.length := by
    rw [UInt64.toNat_ofNat']
    omega
  have hstop : (bytes ++ rest).length - bytes.length = rest.length := by
    rw [List.length_append]
    omega
  rw [delimited_eq_andThen, andThen, encodeDelimited, List.append_assoc,
    readVarint_varintOfNat hlen]
  simp only [hcount, hstop]
  exact if_neg (by rw [List.length_append]; omega)

/-- What is delimited is read to what its content is read to in its place. -/
theorem delimited_encodeDelimited {σ : Type} {step : σ → Reader σ} {s s' : σ}
    {bytes rest : List UInt8} (hlen : bytes.length < 2 ^ 64)
    (h : whileLonger rest.length step s (bytes ++ rest) = .ok (s', rest)) :
    delimited step s (encodeDelimited bytes ++ rest) = .ok (s', rest) := by
  rw [delimited_encodeDelimited_eq step s hlen, h]
  exact if_pos rfl

namespace Run

variable {σ : Type} {step : σ → Nat → WireType → Reader σ} {s s' s'' : σ}
  {bytes bytes' : List UInt8}

/-- One field is run. -/
theorem single {number : Nat} {w : WireType} {value : List UInt8}
    (hnumber : 1 ≤ number ∧ number ≤ maxFieldNumber) (hw : w ≠ .endGroup)
    (hstep : ∀ rest, step s number w (value ++ rest) = .ok (s', rest)) :
    Run step s (encodeKey number w ++ value) s' := by
  have h := Run.cons hnumber hw hstep (.nil s')
  rwa [List.append_nil] at h

/-- One run after another is a run. -/
theorem append (h : Run step s bytes s') (h' : Run step s' bytes' s'') :
    Run step s (bytes ++ bytes') s'' := by
  induction h with
  | nil s => exact h'
  | cons hnumber hw hstep _ ih =>
    rw [List.append_assoc]
    exact .cons hnumber hw hstep (ih h')

/-- Steps that agree with those of a run make the same run. -/
theorem of_agree {step' : σ → Nat → WireType → Reader σ}
    (hagree : ∀ s n w input, Agree Eq (step s n w input) (step' s n w input))
    (h : Run step s bytes s') : Run step' s bytes s' := by
  induction h with
  | nil s => exact .nil s
  | @cons s s' s'' n w value bytes hnumber hw hstep _ ih =>
    refine .cons hnumber hw (fun rest => ?_) ih
    have hsame := hagree s n w (value ++ rest)
    rw [hstep] at hsame
    -- The first step has not given up, so the second has succeeded too.
    generalize step' s n w (value ++ rest) = y at hsame
    cases hsame with
    | ok _ heq => exact heq ▸ rfl

variable (hlocal : ∀ s n w, Local (step s n w))
include hlocal

/-- The loop over fields does what the run says, and leaves what follows the fields. -/
theorem whileLonger (h : Run step s bytes s') (rest : List UInt8) :
    whileLonger rest.length (keyed step) s (bytes ++ rest) = .ok (s', rest) := by
  induction h with
  | nil s => rw [List.nil_append, Wire.whileLonger, if_pos (Nat.le_refl _)]
  | @cons s s' s'' number w value bytes hnumber hw hstep _ ih =>
    -- The key alone keeps the loop from ending here.
    have hkey := length_encodeKey_pos number w
    have hlong : ¬(encodeKey number w ++ value ++ bytes ++ rest).length ≤ rest.length := by
      simp only [List.length_append]
      omega
    rw [whileLonger_eq (consumes_keyed hlocal), if_neg hlong, List.append_assoc, List.append_assoc,
      keyed_encodeKey step s hnumber, hstep]
    exact ih

/-- A delimited value that fields were written into is read as the run says. -/
theorem delimited (h : Run step s bytes s') (hlen : bytes.length < 2 ^ 64) (rest : List UInt8) :
    Wire.delimited (keyed step) s (encodeDelimited bytes ++ rest) = .ok (s', rest) :=
  delimited_encodeDelimited hlen (h.whileLonger hlocal rest)

/-- A group that fields were written into is read as the run says. -/
theorem untilEndGroup (h : Run step s bytes s') {number : Nat}
    (hnumber : 1 ≤ number ∧ number ≤ maxFieldNumber) (rest : List UInt8) :
    Wire.untilEndGroup number step s (bytes ++ encodeKey number .endGroup ++ rest) =
      .ok (s', rest) := by
  induction h with
  | nil s =>
    rw [List.nil_append, untilEndGroup_of_endGroup (readKey_encodeKey hnumber .endGroup rest)]
    exact if_pos rfl
  | cons hfield hw hstep _ ih =>
    simp only [List.append_assoc] at ih ⊢
    rw [untilEndGroup_of_key hlocal (readKey_encodeKey hfield _ _) hw, hstep]
    exact ih

end Run

/-- Bytes that fields were written into are merged as the run says. -/
theorem mergeFields_of_run {p : Pool} {index : Nat} {m m' : Message} {bytes : List UInt8}
    (h : Run (readField p nestingLimit index) m bytes m') :
    mergeFields p index m bytes = .ok (m', []) := by
  have hloop := h.whileLonger (local_readField p nestingLimit index) []
  rwa [List.append_nil] at hloop

end Message

end ColumnarRecords
