import ColumnarRecords.Proofs.Wire.Local

/-!
# Reading that treats all states alike

A loop of decoding hands a state from step to step, and what a step does may depend on the state.
The steps of the library look at the bytes alone to decide whether they go on and where they end:
`Uniform P read` says that the bytes fix either a fault or a change of the state, of a sort `P`,
and the bytes that are left, for all states at once. Uniform steps make uniform loops, whatever the
loop, if one change after another is again of the sort (`Composes`).
-/

namespace ColumnarRecords.Wire

variable {σ τ α : Type}

/-- For given bytes a reader fails with the same fault whatever the state, or makes the same change
of a sort to every state and leaves the same bytes. -/
def Uniform (P : (σ → σ) → Prop) (read : σ → Reader σ) : Prop :=
  ∀ input, (∃ f, ∀ s, read s input = .error f) ∨
    ∃ g rest, P g ∧ ∀ s, read s input = .ok (g s, rest)

/-- A sort of changes to which no change belongs, and one change after another. -/
structure Composes (P : (σ → σ) → Prop) : Prop where
  /-- The state is left as it is. -/
  same : P fun s => s
  /-- One change is made after another. -/
  after : ∀ g h, P g → P h → P fun s => h (g s)

/-- Any changes compose. -/
theorem composes_true : Composes fun _ : σ → σ => True := ⟨trivial, fun _ _ _ _ => trivial⟩

namespace Uniform

variable {P : (σ → σ) → Prop} {Q : (τ → τ) → Prop}

/-- Changes of a sort are changes of a wider sort. -/
theorem mono {Q : (σ → σ) → Prop} {read : σ → Reader σ} (h : Uniform P read)
    (hsub : ∀ g, P g → Q g) : Uniform Q read := by
  intro input
  obtain hfail | ⟨g, rest, hg, hread⟩ := h input
  · exact .inl hfail
  · exact .inr ⟨g, rest, hsub g hg, hread⟩

/-- What is read without a look at the state replaces it. -/
theorem const {read : Reader σ} (h : ∀ a, P fun _ => a) : Uniform P fun _ => read := by
  intro input
  cases hread : read input with
  | error f => exact .inl ⟨f, fun _ => hread⟩
  | ok r => exact .inr ⟨fun _ => r.1, r.2, h r.1, fun _ => hread⟩

/-- What is read without a look at the state is put into it. -/
theorem put {read : Reader α} {into : τ → α → τ} (h : ∀ a, Q fun t => into t a) :
    Uniform Q fun t => andThen read fun a rest => .ok (into t a, rest) := by
  intro input
  simp only [andThen]
  cases read input with
  | error f => exact .inl ⟨f, fun _ => rfl⟩
  | ok r => exact .inr ⟨fun t => into t r.1, r.2, h r.1, fun _ => rfl⟩

/-- A part of a state is changed alike in all states, so the states are. -/
theorem part {read : σ → Reader σ} (hread : Uniform P read) {get : τ → σ} {into : τ → σ → τ}
    (h : ∀ g, P g → Q fun t => into t (g (get t))) :
    Uniform Q fun t => andThen (read (get t)) fun s rest => .ok (into t s, rest) := by
  intro input
  simp only [andThen]
  obtain ⟨f, hfail⟩ | ⟨g, rest, hg, hok⟩ := hread input
  · exact .inl ⟨f, fun t => by rw [hfail]⟩
  · exact .inr ⟨fun t => into t (g (get t)), rest, h g hg, fun t => by rw [hok]⟩

section Loops

variable (hP : Composes P)
include hP

/-- Loops are uniform if their steps are. -/
theorem whileLonger {step : σ → Reader σ} (h : Uniform P step) (stop : Nat) :
    Uniform P (Wire.whileLonger stop step) := by
  intro input
  induction hn : input.length using Nat.strongRecOn generalizing input with
  | ind n ih =>
    subst hn
    by_cases hstop : input.length ≤ stop
    · refine .inr ⟨_, input, hP.same, fun s => ?_⟩
      rw [Wire.whileLonger, if_pos hstop]
    obtain ⟨f, hfail⟩ | ⟨g, rest, hg, hok⟩ := h input
    · refine .inl ⟨f, fun s => ?_⟩
      rw [Wire.whileLonger, if_neg hstop, hfail]
    -- All states leave the same bytes, so the loop goes on for all of them or for none.
    have hstep : ∀ s, Wire.whileLonger stop step s input =
        if rest.length < input.length then Wire.whileLonger stop step (g s) rest
        else .ok (g s, rest) := by
      intro s
      rw [Wire.whileLonger, if_neg hstop, hok]
    by_cases hlt : rest.length < input.length
    · obtain ⟨f, hfail⟩ | ⟨g', after, hg', hok'⟩ := ih rest.length hlt rest rfl
      · refine .inl ⟨f, fun s => ?_⟩
        rw [hstep, if_pos hlt, hfail]
      · refine .inr ⟨fun s => g' (g s), after, hP.after g g' hg hg', fun s => ?_⟩
        rw [hstep, if_pos hlt, hok']
    · refine .inr ⟨g, rest, hg, fun s => ?_⟩
      rw [hstep, if_neg hlt]

/-- Delimited values are read uniformly if the steps are uniform. -/
theorem delimited {step : σ → Reader σ} (h : Uniform P step) :
    Uniform P (Wire.delimited step) := by
  intro input
  unfold Wire.delimited
  cases readVarint input with
  | error f => exact .inl ⟨f, fun _ => rfl⟩
  | ok r =>
    obtain ⟨n, rest⟩ := r
    by_cases hshort : rest.length < n.toNat
    · exact .inl ⟨.underflow, fun _ => if_pos hshort⟩
    simp only [if_neg hshort]
    obtain ⟨f, hfail⟩ | ⟨g, after, hg, hok⟩ := h.whileLonger hP (rest.length - n.toNat) rest
    · exact .inl ⟨f, fun s => by rw [hfail]⟩
    by_cases hend : after.length = rest.length - n.toNat
    · exact .inr ⟨g, after, hg, fun s => by rw [hok]; exact if_pos hend⟩
    · exact .inl ⟨.lengthExceeded, fun s => by rw [hok]; exact if_neg hend⟩

/-- Groups are read uniformly if the steps are local and uniform. -/
theorem untilEndGroup [Inhabited σ] {step : σ → Nat → WireType → Reader σ}
    (hlocal : ∀ s n w, Local (step s n w)) (h : ∀ n w, Uniform P fun s => step s n w)
    (number : Nat) : Uniform P (Wire.untilEndGroup number step) := by
  intro input
  induction hn : input.length using Nat.strongRecOn generalizing input with
  | ind n ih =>
    subst hn
    cases hk : readKey input with
    | error f => exact .inl ⟨f, fun _ => untilEndGroup_of_error hk⟩
    | ok r =>
      obtain ⟨⟨k, w⟩, rest⟩ := r
      by_cases hw : w = .endGroup
      · subst hw
        by_cases hnumber : k = number
        · refine .inr ⟨_, rest, hP.same, fun s => ?_⟩
          rw [untilEndGroup_of_endGroup hk, if_pos hnumber]
        · refine .inl ⟨.unexpectedEndGroup, fun s => ?_⟩
          rw [untilEndGroup_of_endGroup hk, if_neg hnumber]
      have hstep : ∀ s, Wire.untilEndGroup number step s input = _ :=
        fun s => untilEndGroup_of_key hlocal hk hw
      obtain ⟨f, hfail⟩ | ⟨g, after, hg, hok⟩ := h k w rest
      · refine .inl ⟨f, fun s => ?_⟩
        rw [hstep, show step s k w rest = _ from hfail s]
      -- The key alone makes what is left shorter, whatever the states are.
      have hshort : after.length < input.length :=
        Nat.lt_of_le_of_lt ((hlocal default k w).length_le (hok default)) (readKey_length_lt hk)
      obtain ⟨f, hfail⟩ | ⟨g', after', hg', hok'⟩ := ih after.length hshort after rfl
      · refine .inl ⟨f, fun s => ?_⟩
        rw [hstep, show step s k w rest = _ from hok s]
        exact hfail (g s)
      · refine .inr ⟨fun s => g' (g s), after', hP.after g g' hg hg', fun s => ?_⟩
        rw [hstep, show step s k w rest = _ from hok s]
        exact hok' (g s)

end Loops

end Uniform

end ColumnarRecords.Wire
