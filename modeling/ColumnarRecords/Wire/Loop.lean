import ColumnarRecords.Wire.Scalar

/-!
# Reading one thing after another

The two loops of decoding: as long as more than a given number of bytes is left, and up to the
end key of a group. Both run a step that consumes; a step that consumed nothing would end the
loop, and `whileLonger_eq` and `untilEndGroup_eq` say what a loop does when its steps consume,
which all steps of the library do.
-/

namespace ColumnarRecords.Wire

/-- Runs a step as long as more than `stop` bytes are left. -/
def whileLonger {σ ε : Type} (stop : Nat) (step : σ → List UInt8 → Except ε (σ × List UInt8))
    (s : σ) (input : List UInt8) : Except ε (σ × List UInt8) :=
  if input.length ≤ stop then .ok (s, input)
  else
    match step s input with
    | .error e => .error e
    | .ok (s, rest) =>
      if rest.length < input.length then whileLonger stop step s rest else .ok (s, rest)
termination_by input.length

/-- Runs a step on each key and what follows it, up to the end key of the group `number`. -/
def untilEndGroup {σ : Type} (number : Nat) (step : σ → Nat → WireType → Reader σ) (s : σ)
    (input : List UInt8) : Except Fault (σ × List UInt8) :=
  match readKey input with
  | .error f => .error f
  | .ok ((n, .endGroup), rest) => if n = number then .ok (s, rest) else .error .unexpectedEndGroup
  | .ok ((n, w), rest) =>
    match step s n w rest with
    | .error f => .error f
    | .ok (s, rest) =>
      if rest.length < input.length then untilEndGroup number step s rest else .ok (s, rest)
termination_by input.length

/-- The state after values have been read up to the announced end, or `lengthExceeded` if the last
of them ran past it: what is delimited starts with its length. -/
def delimited {σ : Type} (step : σ → Reader σ) (s : σ) : Reader σ := fun input =>
  match readVarint input with
  | .error f => .error f
  | .ok (n, rest) =>
    if rest.length < n.toNat then .error .underflow
    else
      match whileLonger (rest.length - n.toNat) step s rest with
      | .error f => .error f
      | .ok (s, after) =>
        if after.length = rest.length - n.toNat then .ok (s, after) else .error .lengthExceeded

/-- A step consumes: it leaves fewer bytes than there were. -/
def Consumes {σ ε : Type} (step : σ → List UInt8 → Except ε (σ × List UInt8)) : Prop :=
  ∀ s input s' rest, step s input = .ok (s', rest) → rest.length < input.length

/-- The loop with a step that consumes. -/
theorem whileLonger_eq {σ ε : Type} {stop : Nat}
    {step : σ → List UInt8 → Except ε (σ × List UInt8)} (h : Consumes step) (s : σ)
    (input : List UInt8) :
    whileLonger stop step s input =
      if input.length ≤ stop then .ok (s, input)
      else
        match step s input with
        | .error e => .error e
        | .ok (s, rest) => whileLonger stop step s rest := by
  rw [whileLonger]
  split
  · rfl
  · cases hs : step s input with
    | error e => rfl
    | ok r =>
      obtain ⟨s', rest⟩ := r
      simp only
      rw [if_pos (h s input s' rest hs)]

/-- A key leaves fewer bytes than there were. -/
theorem readKey_length_lt {input rest : List UInt8} {k : Nat × WireType}
    (h : readKey input = .ok (k, rest)) : rest.length < input.length := by
  unfold readKey at h
  split at h
  · simp at h
  · rename_i key r hr
    have := readVarint_length_lt hr
    grind

/-- The loop over a group with a step that does not lengthen. -/
theorem untilEndGroup_eq {σ : Type} {number : Nat} {step : σ → Nat → WireType → Reader σ}
    (h : ∀ s n w input s' rest, step s n w input = .ok (s', rest) → rest.length ≤ input.length)
    (s : σ) (input : List UInt8) :
    untilEndGroup number step s input =
      match readKey input with
      | .error f => .error f
      | .ok ((n, .endGroup), rest) =>
        if n = number then .ok (s, rest) else .error .unexpectedEndGroup
      | .ok ((n, w), rest) =>
        match step s n w rest with
        | .error f => .error f
        | .ok (s, rest) => untilEndGroup number step s rest := by
  rw [untilEndGroup]
  cases hk : readKey input with
  | error f => rfl
  | ok k =>
    obtain ⟨⟨n, w⟩, r⟩ := k
    have hr := readKey_length_lt hk
    cases w <;> simp only <;>
      (cases hs : step s n _ r with
        | error f => rfl
        | ok q =>
          obtain ⟨s', rest⟩ := q
          have := h _ _ _ _ _ _ hs
          simp only
          rw [if_pos (by omega)])

end ColumnarRecords.Wire
