import ColumnarRecords.Proofs.Wire.Local

/-!
# Agreement below the nesting limit

The same bytes can be read by readers that keep a different state, or that allow a different
nesting. `Agree R x y` compares two outcomes of this sort: unless the first gives up because things
are nested too deep, both fail, or both succeed with states that `R` relates and leave the same
bytes. Steps that agree make loops that agree, whatever the loop.

Reading under a limit agrees with reading under a higher one, and skipping agrees with reading,
although skipping is the stricter of the two at the innermost group.
-/

namespace ColumnarRecords.Wire

/-- Unless the first outcome is that things are nested too deep, both are faults or both are
successes with related states that leave the same bytes. -/
inductive Agree {σ τ ε : Type} (R : σ → τ → Prop) :
    Except Fault (σ × List UInt8) → Except ε (τ × List UInt8) → Prop where
  /-- The first gives up. -/
  | limit (y : Except ε (τ × List UInt8)) : Agree R (.error .recursionLimit) y
  /-- Both fail. -/
  | error (f : Fault) (e : ε) : Agree R (.error f) (.error e)
  /-- Both succeed. -/
  | ok {s : σ} {t : τ} (rest : List UInt8) (h : R s t) : Agree R (.ok (s, rest)) (.ok (t, rest))

namespace Agree

variable {σ τ σ' τ' ε : Type} {R : σ → τ → Prop} {R' : σ' → τ' → Prop}

/-- An outcome agrees with itself. -/
theorem refl (x : Except Fault (σ × List UInt8)) : Agree Eq x x := by
  cases x with
  | error f => exact .error f f
  | ok r => exact .ok r.2 rfl

/-- What agrees with an outcome agrees with one that gives the same if it succeeds. -/
theorem of_toOption_eq {ε' : Type} {x : Except Fault (σ × List UInt8)}
    {y : Except ε (τ × List UInt8)} {z : Except ε' (τ × List UInt8)} (h : Agree R x y)
    (heq : y.toOption = z.toOption) : Agree R x z := by
  cases h with
  | limit y => exact .limit z
  | error f e =>
    cases z with
    | error e' => exact .error f e'
    | ok r => cases heq
  | ok rest h =>
    cases z with
    | error e' => cases heq
    | ok r =>
      obtain rfl := Option.some.inj heq
      exact .ok rest h

/-- Outcomes one after another agree if the first ones do, and the second ones after related
states. -/
theorem andThen {first : Reader σ} {first' : List UInt8 → Except ε (τ × List UInt8)}
    {second : σ → Reader σ'} {second' : τ → List UInt8 → Except ε (τ' × List UInt8)}
    {input : List UInt8} (h : Agree R (first input) (first' input))
    (h' : ∀ s t rest, R s t → Agree R' (second s rest) (second' t rest)) :
    Agree R' (Wire.andThen first second input) (Wire.andThen first' second' input) := by
  unfold Wire.andThen
  generalize first input = x at h
  generalize first' input = y at h
  cases h with
  | limit y => exact .limit _
  | error f e => exact .error f e
  | ok rest hst => exact h' _ _ rest hst

/-- The same after outcomes that agree agrees. -/
theorem andThen_same {first first' : Reader σ} {second : σ → Reader σ'} {input : List UInt8}
    (h : Agree Eq (first input) (first' input)) :
    Agree Eq (Wire.andThen first second input) (Wire.andThen first' second input) := by
  refine h.andThen ?_
  rintro s _ rest rfl
  exact .refl _

/-- A state that is changed on the way agrees if the change keeps it related. -/
theorem map_right {x : Except Fault (σ × List UInt8)}
    {read : List UInt8 → Except ε (τ × List UInt8)} {input : List UInt8} {R' : σ → τ' → Prop}
    (f : τ → τ') (h : Agree R x (read input)) (hR : ∀ s t, R s t → R' s (f t)) :
    Agree R' x (Wire.andThen read (fun t rest => .ok (f t, rest)) input) := by
  unfold Wire.andThen
  generalize read input = y at h
  cases h with
  | limit y => exact .limit _
  | error g e => exact .error g e
  | ok rest hst => exact .ok rest (hR _ _ hst)

/-- A state that is changed alike on both sides agrees. -/
theorem map_both {read : Reader σ} {input rest : List UInt8} {y : Except ε σ}
    (h : Agree Eq (read input) (y.map fun s => (s, rest))) (f : σ → τ) :
    Agree Eq (Wire.andThen read (fun s rest => .ok (f s, rest)) input)
      ((y.map f).map fun t => (t, rest)) := by
  unfold Wire.andThen
  generalize read input = x at h
  cases y with
  | error e =>
    cases h with
    | limit _ => exact .limit _
    | error g e => exact .error g e
  | ok t =>
    cases h with
    | limit _ => exact .limit _
    | ok rest hst => exact .ok rest (congrArg f hst)

/-- Loops agree if their steps do. -/
theorem whileLonger {step : σ → Reader σ} {step' : τ → List UInt8 → Except ε (τ × List UInt8)}
    (h : ∀ s t input, R s t → Agree R (step s input) (step' t input)) (stop : Nat) {s : σ} {t : τ}
    (hst : R s t) (input : List UInt8) :
    Agree R (Wire.whileLonger stop step s input) (Wire.whileLonger stop step' t input) := by
  induction hn : input.length using Nat.strongRecOn generalizing s t input with
  | ind n ih =>
    subst hn
    rw [Wire.whileLonger, Wire.whileLonger]
    split
    · exact .ok input hst
    · -- Where both steps succeed they leave the same bytes, so the loops go on or end together.
      have hstep := h s t input hst
      generalize step s input = x at hstep
      generalize step' t input = y at hstep
      cases hstep with
      | limit y => exact .limit _
      | error f e => exact .error f e
      | ok rest hst' =>
        simp only
        split
        · rename_i hlt
          exact ih rest.length hlt hst' rest rfl
        · exact .ok rest hst'

/-- Delimited values are read in agreement if the steps agree. -/
theorem delimited {step : σ → Reader σ} {step' : τ → Reader τ}
    (h : ∀ s t input, R s t → Agree R (step s input) (step' t input)) {s : σ} {t : τ}
    (hst : R s t) (input : List UInt8) :
    Agree R (Wire.delimited step s input) (Wire.delimited step' t input) := by
  rw [delimited_eq_andThen, delimited_eq_andThen]
  refine andThen (R := Eq) (refl (readVarint input)) fun n m rest hnm => ?_
  subst hnm
  split
  · exact .error _ _
  · have hloop := whileLonger h (rest.length - n.toNat) hst rest
    generalize Wire.whileLonger _ step s rest = x at hloop
    generalize Wire.whileLonger _ step' t rest = y at hloop
    cases hloop with
    | limit y => exact .limit _
    | error f e => exact .error f e
    | ok after hst' =>
      simp only
      split
      · exact .ok after hst'
      · exact .error _ _

/-- Groups are read in agreement if the steps are local and agree. -/
theorem untilEndGroup {step : σ → Nat → WireType → Reader σ} {step' : τ → Nat → WireType → Reader τ}
    (hlocal : ∀ s n w, Local (step s n w)) (hlocal' : ∀ t n w, Local (step' t n w))
    (h : ∀ s t n w input, R s t → Agree R (step s n w input) (step' t n w input)) (number : Nat)
    {s : σ} {t : τ} (hst : R s t) (input : List UInt8) :
    Agree R (Wire.untilEndGroup number step s input) (Wire.untilEndGroup number step' t input) := by
  induction hn : input.length using Nat.strongRecOn generalizing s t input with
  | ind n ih =>
    subst hn
    cases hk : readKey input with
    | error f =>
      rw [untilEndGroup_of_error hk, untilEndGroup_of_error hk]
      exact .error f f
    | ok r =>
      obtain ⟨⟨k, w⟩, rest⟩ := r
      by_cases hw : w = .endGroup
      · subst hw
        rw [untilEndGroup_of_endGroup hk, untilEndGroup_of_endGroup hk]
        split
        · exact .ok rest hst
        · exact .error _ _
      · rw [untilEndGroup_of_key hlocal hk hw, untilEndGroup_of_key hlocal' hk hw]
        have hstep := h s t k w rest hst
        -- The first step leaves less than there was, and the second leaves the same.
        have hshort : ∀ s' after, step s k w rest = .ok (s', after) →
            after.length < input.length := fun s' after hx =>
          Nat.lt_of_le_of_lt ((hlocal s k w).length_le hx) (readKey_length_lt hk)
        generalize step s k w rest = x at hstep hshort
        generalize step' t k w rest = y at hstep
        cases hstep with
        | limit y => exact .limit _
        | error f e => exact .error f e
        | ok after hst' => exact ih after.length (hshort _ after rfl) hst' after rfl

end Agree

/-- Reading the value of a field of no schema agrees with reading it under a higher limit. -/
theorem WireValue.read_agree (budget number : Nat) (w : WireType) (input : List UInt8) :
    Agree Eq (read budget number w input) (read (budget + 1) number w input) := by
  induction budget generalizing number w input with
  | zero =>
    by_cases hw : w = .startGroup
    · subst hw
      exact .limit _
    · rw [read_of_ne_startGroup 0 number hw, read_of_ne_startGroup 1 number hw]
      exact .refl _
  | succ budget ih =>
    by_cases hw : w = .startGroup
    · subst hw
      rw [read_startGroup, read_startGroup]
      have hlocal : ∀ budget fields n w, Local (readInto budget fields n w) :=
        fun budget fields n w => (local_read budget n w).andThen fun _ => local_pure _
      refine (Agree.untilEndGroup (hlocal _) (hlocal _) ?_ number rfl input).andThen_same
      rintro fields _ n w input rfl
      exact (ih n w input).andThen_same
    · rw [read_of_ne_startGroup _ number hw, read_of_ne_startGroup _ number hw]
      exact .refl _

/-- Skipping agrees with skipping under a higher limit. -/
theorem skip_agree (budget number : Nat) (w : WireType) (input : List UInt8) :
    Agree Eq (skip budget number w input) (skip (budget + 1) number w input) := by
  induction budget generalizing number w input with
  | zero => exact .limit _
  | succ budget ih =>
    by_cases hw : w = .startGroup
    · subst hw
      exact Agree.untilEndGroup (fun _ n w => local_skip budget n w)
        (fun _ n w => local_skip (budget + 1) n w) (fun _ _ n w input _ => ih n w input) number rfl
        input
    · rw [skip_of_ne_startGroup _ number hw, skip_of_ne_startGroup _ number hw]
      exact .refl _

/-- Skipping agrees with reading, which keeps what is skipped. -/
theorem skip_agree_read (budget number : Nat) (w : WireType) (input : List UInt8) :
    Agree (fun _ _ => True) (skip budget number w input)
      (WireValue.read budget number w input) := by
  induction budget generalizing number w input with
  | zero => exact .limit _
  | succ budget ih =>
    by_cases hw : w = .startGroup
    · subst hw
      -- The fields that reading collects are not compared, only the bytes that both leave.
      rw [WireValue.read_startGroup]
      refine Agree.map_right (R := fun _ _ => True) WireValue.group ?_ fun _ _ _ => trivial
      refine Agree.untilEndGroup (fun _ n w => local_skip budget n w)
        (fun _ n w => (WireValue.local_read budget n w).andThen fun _ => local_pure _)
        ?_ number trivial input
      intro _ fields n w input _
      exact (ih n w input).map_right (fun value => fields ++ [(n, value)]) fun _ _ _ => trivial
    · rw [skip_of_ne_startGroup _ number hw, WireValue.read_of_ne_startGroup _ number hw]
      unfold andThen
      cases WireValue.readPlain w input with
      | error f => exact .error f f
      | ok r => exact .ok r.2 trivial

end ColumnarRecords.Wire
