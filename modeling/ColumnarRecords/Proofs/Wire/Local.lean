import ColumnarRecords.Wire.Layout

/-!
# Readers look no further than they take

A reader is local if what it reads depends on the bytes that it takes alone: the same bytes with
anything else after them are read the same. Every reader of the wire format is local, and so are
the loops over a local step. This is what allows content to be cut out of the bytes around it:
`delimited_append` says that reading a delimited value in its place is reading its content by
itself.

Locality is about success. A reader that fails may have looked at all bytes: a value that is cut off
is a fault until more bytes follow.
-/

namespace ColumnarRecords.Wire

section Readers

variable {α β ε : Type}

/-- What a reader takes is the start of the bytes, and it reads the same whatever follows. -/
def Local (read : List UInt8 → Except ε (α × List UInt8)) : Prop :=
  ∀ input a rest, read input = .ok (a, rest) →
    ∃ used, input = used ++ rest ∧ ∀ tail, read (used ++ tail) = .ok (a, tail)

/-- Reads one thing and then another that may depend on it. -/
def andThen (first : List UInt8 → Except ε (α × List UInt8))
    (second : α → List UInt8 → Except ε (β × List UInt8)) :
    List UInt8 → Except ε (β × List UInt8) :=
  fun input =>
    match first input with
    | .error e => .error e
    | .ok (a, rest) => second a rest

/-- One thing after another was read if each of them was. -/
theorem andThen_eq_ok {first : List UInt8 → Except ε (α × List UInt8)}
    {second : α → List UInt8 → Except ε (β × List UInt8)} {input : List UInt8}
    {r : β × List UInt8} :
    andThen first second input = .ok r ↔
      ∃ a rest, first input = .ok (a, rest) ∧ second a rest = .ok r := by
  unfold andThen
  cases first input with
  | error e =>
    constructor
    · intro h
      cases h
    · rintro ⟨a, rest, h, -⟩
      cases h
  | ok x =>
    constructor
    · intro h
      exact ⟨x.1, x.2, rfl, h⟩
    · rintro ⟨a, rest, h, h'⟩
      obtain rfl := Except.ok.inj h
      exact h'

/-- One thing after another failed if the first did, or the second after the first was read. -/
theorem andThen_eq_error {first : List UInt8 → Except ε (α × List UInt8)}
    {second : α → List UInt8 → Except ε (β × List UInt8)} {input : List UInt8} {e : ε} :
    andThen first second input = .error e ↔
      first input = .error e ∨
        ∃ a rest, first input = .ok (a, rest) ∧ second a rest = .error e := by
  unfold andThen
  cases first input with
  | error f => simp
  | ok x =>
    simp only [reduceCtorEq, Except.ok.injEq, false_or]
    constructor
    · intro h
      exact ⟨x.1, x.2, rfl, h⟩
    · rintro ⟨a, rest, rfl, h⟩
      exact h

/-- A local reader does not lengthen. -/
theorem Local.length_le {read : List UInt8 → Except ε (α × List UInt8)} (h : Local read)
    {input rest : List UInt8} {a : α} (hr : read input = .ok (a, rest)) :
    rest.length ≤ input.length := by
  obtain ⟨used, rfl, -⟩ := h input a rest hr
  rw [List.length_append]
  exact Nat.le_add_left _ _

/-- A local reader that takes all bytes takes the same when others follow. -/
theorem Local.append {read : List UInt8 → Except ε (α × List UInt8)} (h : Local read)
    {input : List UInt8} {a : α} (hr : read input = .ok (a, [])) (tail : List UInt8) :
    read (input ++ tail) = .ok (a, tail) := by
  obtain ⟨used, hused, hsame⟩ := h input a [] hr
  rw [List.append_nil] at hused
  rw [hused]
  exact hsame tail

/-- A reader under a bound is local without one, if it is local under every bound and those of which
there are as many as bytes are all the same. -/
theorem Local.of_length {read : Nat → List UInt8 → Except ε (α × List UInt8)}
    (h : ∀ n, Local (read n))
    (hsame : ∀ n input, input.length ≤ n → read n input = read input.length input) :
    Local fun input => read input.length input := by
  intro input a rest hr
  obtain ⟨used, rfl, -⟩ := h _ input a rest hr
  refine ⟨used, rfl, fun tail => ?_⟩
  -- A bound that is enough with either end.
  have hmore := hsame ((used ++ rest).length + (used ++ tail).length) (used ++ rest) (by omega)
  obtain ⟨used', hused, hread⟩ := h _ (used ++ rest) a rest (hmore.trans hr)
  obtain rfl := List.append_cancel_right hused
  exact (hsame _ (used ++ tail) (by omega)).symm.trans (hread tail)

/-- A reader that fails takes nothing. -/
theorem local_error (e : ε) : Local (α := α) fun _ => .error e := by
  intro input a rest h
  cases h

/-- A reader that takes nothing is local. -/
theorem local_pure (a : α) : Local (ε := ε) fun input => .ok (a, input) := by
  intro input a' rest h
  obtain ⟨rfl, rfl⟩ := Prod.mk.inj (Except.ok.inj h)
  exact ⟨[], rfl, fun tail => rfl⟩

/-- Local readers one after another are local. -/
theorem Local.andThen {first : List UInt8 → Except ε (α × List UInt8)}
    {second : α → List UInt8 → Except ε (β × List UInt8)} (hfirst : Local first)
    (hsecond : ∀ a, Local (second a)) : Local (andThen first second) := by
  intro input b rest h
  unfold Wire.andThen at h
  cases hf : first input with
  | error e =>
    rw [hf] at h
    cases h
  | ok r =>
    obtain ⟨a, middle⟩ := r
    rw [hf] at h
    obtain ⟨used, rfl, hused⟩ := hfirst input a middle hf
    obtain ⟨used', rfl, hused'⟩ := hsecond a middle b rest h
    refine ⟨used ++ used', by rw [List.append_assoc], fun tail => ?_⟩
    unfold Wire.andThen
    rw [List.append_assoc, hused]
    exact hused' tail

/-- Taking a number of bytes, if there are as many, is local. -/
theorem local_take (count : Nat) (e : List UInt8 → ε) (toValue : List UInt8 → α) :
    Local fun input : List UInt8 =>
      if input.length < count then (.error (e input) : Except ε (α × List UInt8))
      else .ok (toValue (input.take count), input.drop count) := by
  intro input a rest h
  simp only at h
  split at h
  · cases h
  · rename_i hlen
    obtain ⟨rfl, rfl⟩ := Prod.mk.inj (Except.ok.inj h)
    have htake : (input.take count).length = count := by
      rw [List.length_take]
      omega
    refine ⟨input.take count, (List.take_append_drop count input).symm, fun tail => ?_⟩
    simp only
    rw [if_neg (by rw [List.length_append, htake]; omega), List.take_left' htake,
      List.drop_left' htake]

end Readers

/-- Reading a varint from some place on is local. -/
theorem local_readVarintAt (place : Nat) : Local (readVarintAt place) := by
  intro input n rest h
  -- The place goes up with each byte that announces another, so it is not fixed.
  induction input generalizing place n with
  | nil => cases h
  | cons b bytes ih =>
    rw [readVarintAt] at h
    split at h
    · cases h
    · rename_i hplace
      split at h
      · rename_i hb
        obtain ⟨rfl, rfl⟩ := Prod.mk.inj (Except.ok.inj h)
        refine ⟨[b], rfl, fun tail => ?_⟩
        rw [List.singleton_append, readVarintAt, if_neg hplace, if_pos hb]
      · rename_i hb
        split at h
        · cases h
        · rename_i m after hm
          obtain ⟨rfl, rfl⟩ := Prod.mk.inj (Except.ok.inj h)
          obtain ⟨used, rfl, hused⟩ := ih (place + 1) m hm
          refine ⟨b :: used, rfl, fun tail => ?_⟩
          rw [List.cons_append, readVarintAt, if_neg hplace, if_neg hb, hused]

/-- A word is a number that is read from the first place on. -/
theorem readVarint_eq_andThen :
    readVarint = andThen (readVarintAt 0) fun n rest => .ok (UInt64.ofNat n, rest) := by
  funext input
  unfold readVarint andThen
  cases readVarintAt 0 input <;> rfl

/-- Reading a varint is local. -/
theorem local_readVarint : Local readVarint := by
  rw [readVarint_eq_andThen]
  exact (local_readVarintAt 0).andThen fun n => local_pure (UInt64.ofNat n)

/-- The field number and the wire type that a word is as a key. -/
def keyOfWord (key : UInt64) : Reader (Nat × WireType) := fun rest =>
  if 2 ^ 32 ≤ key.toNat then .error (.invalidKey key.toNat)
  else
    match WireType.ofCode? (key.toNat % 8) with
    | none => .error (.invalidWireType (key.toNat % 8))
    | some w => if key.toNat / 8 = 0 then .error .invalidTag else .ok ((key.toNat / 8, w), rest)

/-- A key is a word. -/
theorem readKey_eq_andThen : readKey = andThen readVarint keyOfWord := by
  funext input
  unfold readKey andThen
  cases readVarint input <;> rfl

/-- Reading a key is local. -/
theorem local_readKey : Local readKey := by
  rw [readKey_eq_andThen]
  refine local_readVarint.andThen fun key => ?_
  unfold keyOfWord
  split
  · exact local_error _
  · split
    · exact local_error _
    · split
      · exact local_error _
      · exact local_pure _

/-- Reading four bytes is local. -/
theorem local_readFixed32 : Local readFixed32 :=
  local_take 4 (fun _ => Fault.underflow) fun bytes => UInt32.ofNat (ofLittleEndian bytes)

/-- Reading eight bytes is local. -/
theorem local_readFixed64 : Local readFixed64 :=
  local_take 8 (fun _ => Fault.underflow) fun bytes => UInt64.ofNat (ofLittleEndian bytes)

/-- What is delimited is a word and as many bytes. -/
theorem readDelimited_eq_andThen :
    readDelimited = andThen readVarint fun n rest =>
      if rest.length < n.toNat then .error .underflow
      else .ok (id (rest.take n.toNat), rest.drop n.toNat) := by
  funext input
  unfold readDelimited andThen
  cases readVarint input <;> rfl

/-- Reading what is delimited is local. -/
theorem local_readDelimited : Local readDelimited := by
  rw [readDelimited_eq_andThen]
  exact local_readVarint.andThen fun n => local_take n.toNat (fun _ => Fault.underflow) id

/-- The text that bytes are, if they are text. -/
def textOf (content : List UInt8) : Reader String := fun rest =>
  match Text.Utf8.decode content with
  | .error _ => .error .notUtf8
  | .ok s => .ok (s, rest)

/-- Delimited text is delimited bytes that are text. -/
theorem readText_eq_andThen : Layout.readText = andThen readDelimited textOf := by
  funext input
  unfold Layout.readText andThen
  cases readDelimited input <;> rfl

/-- Reading delimited text is local. -/
theorem local_readText : Local Layout.readText := by
  rw [readText_eq_andThen]
  refine local_readDelimited.andThen fun content => ?_
  unfold textOf
  split
  · exact local_error _
  · exact local_pure _

section Loops

variable {σ ε : Type}

/-- A loop that ends just where it has to has run its steps on what it took, and ends so whatever
follows. -/
theorem whileLonger_local {step : σ → List UInt8 → Except ε (σ × List UInt8)}
    (h : ∀ s, Local (step s)) {stop : Nat} {s s' : σ} {input after : List UInt8}
    (hr : whileLonger stop step s input = .ok (s', after)) (hstop : after.length = stop) :
    ∃ used, input = used ++ after ∧
      ∀ tail : List UInt8, whileLonger tail.length step s (used ++ tail) = .ok (s', tail) := by
  -- By the bytes that are left: what the loop takes is what its first step takes and then the rest.
  induction hn : input.length using Nat.strongRecOn generalizing s input with
  | ind n ih =>
    subst hn
    rw [whileLonger] at hr
    split at hr
    · obtain ⟨rfl, rfl⟩ := Prod.mk.inj (Except.ok.inj hr)
      refine ⟨[], rfl, fun tail => ?_⟩
      rw [List.nil_append, whileLonger, if_pos (Nat.le_refl _)]
    · rename_i hlong
      split at hr
      · cases hr
      · rename_i t rest hs
        split at hr
        · rename_i hlt
          obtain ⟨used, rfl, hused⟩ := h s input t rest hs
          obtain ⟨used', rfl, hused'⟩ := ih rest.length hlt hr rfl
          have hpos : 0 < used.length := by
            rw [@List.length_append _ used] at hlt
            omega
          refine ⟨used ++ used', by rw [List.append_assoc], fun tail => ?_⟩
          rw [List.append_assoc, whileLonger, hused,
            if_neg (by simp only [List.length_append]; omega)]
          simp only
          rw [if_pos (by simp only [List.length_append]; omega)]
          exact hused' tail
        · -- A step that took nothing would have ended the loop before its end.
          rename_i hge
          obtain ⟨rfl, rfl⟩ := Prod.mk.inj (Except.ok.inj hr)
          omega

/-- What a delimited value is read to: its content up to the announced end. -/
theorem delimited_eq_andThen (step : σ → Reader σ) (s : σ) :
    delimited step s = andThen readVarint fun n rest =>
      if rest.length < n.toNat then .error .underflow
      else
        match whileLonger (rest.length - n.toNat) step s rest with
        | .error f => .error f
        | .ok (s, after) =>
          if after.length = rest.length - n.toNat then .ok (s, after)
          else .error .lengthExceeded := by
  funext input
  unfold delimited andThen
  cases readVarint input <;> rfl

/-- Reading the content of a delimited value by local steps is local. -/
theorem local_delimited {step : σ → Reader σ} (h : ∀ s, Local (step s)) (s : σ) :
    Local (delimited step s) := by
  rw [delimited_eq_andThen]
  refine local_readVarint.andThen fun n => ?_
  intro input s' rest hr
  simp only at hr
  split at hr
  · cases hr
  · rename_i hlen
    split at hr
    · cases hr
    · rename_i t after hloop
      split at hr
      · rename_i hstop
        obtain ⟨rfl, rfl⟩ := Prod.mk.inj (Except.ok.inj hr)
        obtain ⟨used, rfl, hused⟩ := whileLonger_local h hloop hstop
        -- What was taken is as long as announced, so with any tail the loop stops at its place.
        have hcount : used.length = n.toNat := by
          rw [List.length_append] at hlen hstop
          omega
        refine ⟨used, rfl, fun tail => ?_⟩
        have hrest : (used ++ tail).length - n.toNat = tail.length := by
          rw [List.length_append]
          omega
        simp only
        rw [if_neg (by rw [List.length_append]; omega), hrest, hused]
        exact if_pos rfl
      · cases hr

/-- A group of no readable key. -/
theorem untilEndGroup_of_error {number : Nat} {step : σ → Nat → WireType → Reader σ} {s : σ}
    {input : List UInt8} {f : Fault} (hk : readKey input = .error f) :
    untilEndGroup number step s input = .error f := by
  rw [untilEndGroup, hk]

/-- A group of no further field. -/
theorem untilEndGroup_of_endGroup {number n : Nat} {step : σ → Nat → WireType → Reader σ} {s : σ}
    {input rest : List UInt8} (hk : readKey input = .ok ((n, .endGroup), rest)) :
    untilEndGroup number step s input =
      if n = number then .ok (s, rest) else .error .unexpectedEndGroup := by
  rw [untilEndGroup, hk]

/-- A group of a field and further ones. -/
theorem untilEndGroup_of_key {number n : Nat} {step : σ → Nat → WireType → Reader σ}
    (h : ∀ s n w, Local (step s n w)) {s : σ} {w : WireType} {input rest : List UInt8}
    (hk : readKey input = .ok ((n, w), rest)) (hw : w ≠ .endGroup) :
    untilEndGroup number step s input =
      match step s n w rest with
      | .error f => .error f
      | .ok (s, rest) => untilEndGroup number step s rest := by
  rw [untilEndGroup_eq fun s n w _ _ _ hs => (h s n w).length_le hs, hk]
  cases w with
  | endGroup => exact absurd rfl hw
  | _ => rfl

/-- Reading a group by local steps is local. -/
theorem local_untilEndGroup {step : σ → Nat → WireType → Reader σ} (h : ∀ s n w, Local (step s n w))
    (number : Nat) (s : σ) : Local (untilEndGroup number step s) := by
  intro input s' rest hr
  induction hn : input.length using Nat.strongRecOn generalizing s input with
  | ind n ih =>
    subst hn
    cases hk : readKey input with
    | error f =>
      rw [untilEndGroup_of_error hk] at hr
      cases hr
    | ok r =>
      obtain ⟨⟨k, w⟩, middle⟩ := r
      -- The key alone makes what is left shorter, so a field may take nothing.
      have hlt := readKey_length_lt hk
      obtain ⟨used, rfl, hused⟩ := local_readKey input (k, w) middle hk
      by_cases hw : w = .endGroup
      · subst hw
        rw [untilEndGroup_of_endGroup hk] at hr
        split at hr
        · rename_i hnumber
          obtain ⟨rfl, rfl⟩ := Prod.mk.inj (Except.ok.inj hr)
          refine ⟨used, rfl, fun tail => ?_⟩
          rw [untilEndGroup_of_endGroup (hused tail), if_pos hnumber]
        · cases hr
      · rw [untilEndGroup_of_key h hk hw] at hr
        split at hr
        · cases hr
        · rename_i t after hs
          obtain ⟨used', rfl, hused'⟩ := h s k w middle t after hs
          have hshort : after.length < (used ++ (used' ++ after)).length := by
            rw [@List.length_append _ used'] at hlt
            omega
          obtain ⟨used'', rfl, hused''⟩ := ih after.length hshort t after hr rfl
          refine ⟨used ++ (used' ++ used''), by simp only [List.append_assoc], fun tail => ?_⟩
          simp only [List.append_assoc]
          rw [untilEndGroup_of_key h (hused _) hw, hused']
          exact hused'' tail

/-- What holds at first and is kept by every step holds after a loop. -/
theorem whileLonger_invariant {stop : Nat} {step : σ → List UInt8 → Except ε (σ × List UInt8)}
    {I : σ → Prop}
    (h : ∀ s input s' rest, I s → step s input = .ok (s', rest) → I s')
    {s s' : σ} {input after : List UInt8} (hs : I s)
    (hr : whileLonger stop step s input = .ok (s', after)) : I s' := by
  induction hn : input.length using Nat.strongRecOn generalizing s input with
  | ind n ih =>
    subst hn
    rw [whileLonger] at hr
    split at hr
    · obtain ⟨rfl, -⟩ := Prod.mk.inj (Except.ok.inj hr)
      exact hs
    · split at hr
      · cases hr
      · rename_i t rest hstep
        have ht := h s input t rest hs hstep
        split at hr
        · rename_i hlt
          exact ih rest.length hlt ht hr rfl
        · obtain ⟨rfl, -⟩ := Prod.mk.inj (Except.ok.inj hr)
          exact ht

/-- A loop of steps that consume leaves no more bytes than it has to. -/
theorem length_le_of_whileLonger {stop : Nat} {step : σ → List UInt8 → Except ε (σ × List UInt8)}
    (h : Consumes step) {s s' : σ} {input after : List UInt8}
    (hr : whileLonger stop step s input = .ok (s', after)) : after.length ≤ stop := by
  induction hn : input.length using Nat.strongRecOn generalizing s input with
  | ind n ih =>
    subst hn
    rw [whileLonger_eq h] at hr
    split at hr
    · rename_i hshort
      obtain ⟨rfl, rfl⟩ := Prod.mk.inj (Except.ok.inj hr)
      exact hshort
    · split at hr
      · cases hr
      · rename_i t rest hs
        exact ih rest.length (h s input t rest hs) hr rfl

/-- Loops are the same if their steps are the same on all bytes that there may be left. -/
theorem whileLonger_congr {stop : Nat} {step step' : σ → List UInt8 → Except ε (σ × List UInt8)}
    {input : List UInt8} (h : ∀ s i, i.length ≤ input.length → step s i = step' s i) (s : σ) :
    whileLonger stop step s input = whileLonger stop step' s input := by
  induction hn : input.length using Nat.strongRecOn generalizing s input with
  | ind n ih =>
    subst hn
    rw [whileLonger, whileLonger, h s input (Nat.le_refl _)]
    split
    · rfl
    · cases step' s input with
      | error e => rfl
      | ok r =>
        simp only
        split
        · rename_i hlt
          exact ih r.2.length hlt (fun s i hi => h s i (by omega)) r.1 rfl
        · rfl

/-- What is delimited is read the same by steps that are the same on all shorter bytes. -/
theorem delimited_congr {step step' : σ → Reader σ} {input : List UInt8}
    (h : ∀ s i, i.length < input.length → step s i = step' s i) (s : σ) :
    delimited step s input = delimited step' s input := by
  unfold delimited
  cases hn : readVarint input with
  | error f => rfl
  | ok r =>
    have hlt := readVarint_length_lt hn
    simp only [whileLonger_congr (fun s i hi => h s i (Nat.lt_of_le_of_lt hi hlt)) s]

/-- A value that is delimited as a whole is the word of a length and content of this length. -/
theorem readVarint_of_readDelimited {value content : List UInt8}
    (h : readDelimited value = .ok (content, [])) :
    ∃ n : UInt64, content.length = n.toNat ∧ readVarint value = .ok (n, content) := by
  unfold readDelimited at h
  split at h
  · cases h
  · rename_i n rest hn
    split at h
    · cases h
    · rename_i hlen
      obtain ⟨htake, hdrop⟩ := Prod.mk.inj (Except.ok.inj h)
      have hle := List.drop_eq_nil_iff.1 hdrop
      rw [List.take_of_length_le hle] at htake
      subst htake
      exact ⟨n, by omega, hn⟩

/-- Reading a delimited value in its place succeeds just if reading its content by itself does, to
the same state, and leaves what follows. -/
theorem delimited_append {step : σ → Reader σ} (h : ∀ s, Local (step s)) (hc : Consumes step)
    {value content : List UInt8} (hv : readDelimited value = .ok (content, [])) (s : σ)
    (rest : List UInt8) :
    (delimited step s (value ++ rest)).toOption =
      ((whileLonger 0 step s content).map fun r => (r.1, rest)).toOption := by
  obtain ⟨n, hlen, hn⟩ := readVarint_of_readDelimited hv
  obtain ⟨used, rfl, hused⟩ := local_readVarint value n content hn
  have hstop : (content ++ rest).length - n.toNat = rest.length := by
    rw [List.length_append]
    omega
  have hplace : delimited step s (used ++ content ++ rest) =
      match whileLonger rest.length step s (content ++ rest) with
      | .error f => .error f
      | .ok (s', after) =>
        if after.length = rest.length then .ok (s', after) else .error .lengthExceeded := by
    rw [delimited_eq_andThen, List.append_assoc]
    unfold andThen
    rw [hused]
    simp only
    rw [if_neg (by rw [List.length_append]; omega), hstop]
  rw [hplace]
  cases hself : whileLonger 0 step s content with
  | ok r =>
    obtain ⟨s', after⟩ := r
    -- The content by itself is read to its end, and so is the same content before something else.
    have hnil : after = [] := by
      have hle := length_le_of_whileLonger hc hself
      exact List.eq_nil_of_length_eq_zero (by omega)
    subst hnil
    obtain ⟨used', hcontent, hloop⟩ := whileLonger_local h hself rfl
    rw [List.append_nil] at hcontent
    subst hcontent
    rw [hloop rest]
    simp only [if_true]
    rfl
  | error e =>
    cases hloop : whileLonger rest.length step s (content ++ rest) with
    | error e' => rfl
    | ok r =>
      obtain ⟨s', after⟩ := r
      simp only
      split
      · -- The loop has then run on the content alone, and does so by itself.
        rename_i hafter
        obtain ⟨used', hcontent, hsame⟩ := whileLonger_local h hloop hafter
        obtain ⟨rfl, -⟩ := List.append_inj' hcontent hafter.symm
        have hself' := hsame []
        rw [List.append_nil, List.length_nil, hself] at hself'
        cases hself'
      · rfl

end Loops

namespace WireValue

/-- Reads the value of a field that is no group. -/
def readPlain : WireType → Reader WireValue
  | .varint => andThen readVarint fun n rest => .ok (varint n, rest)
  | .fixed64 => andThen readFixed64 fun n rest => .ok (fixed64 n, rest)
  | .lengthDelimited => andThen readDelimited fun content rest => .ok (bytes content, rest)
  | .fixed32 => andThen readFixed32 fun n rest => .ok (fixed32 n, rest)
  | .startGroup | .endGroup => fun _ => .error .unexpectedEndGroup

/-- Values that are no groups are read the same however deep they are. -/
theorem read_of_ne_startGroup (budget number : Nat) {w : WireType} (hw : w ≠ .startGroup) :
    read budget number w = readPlain w := by
  funext input
  cases w with
  | startGroup => exact absurd rfl hw
  | varint =>
    simp only [read, readPlain, andThen]
    cases readVarint input <;> rfl
  | fixed64 =>
    simp only [read, readPlain, andThen]
    cases readFixed64 input <;> rfl
  | fixed32 =>
    simp only [read, readPlain, andThen]
    cases readFixed32 input <;> rfl
  | lengthDelimited =>
    simp only [read, readPlain, andThen]
    cases readDelimited input <;> rfl
  | endGroup => simp only [read, readPlain]

/-- Reading a value that is no group is local. -/
theorem local_readPlain (w : WireType) : Local (readPlain w) := by
  cases w with
  | varint => exact local_readVarint.andThen fun n => local_pure (varint n)
  | fixed64 => exact local_readFixed64.andThen fun n => local_pure (fixed64 n)
  | fixed32 => exact local_readFixed32.andThen fun n => local_pure (fixed32 n)
  | lengthDelimited => exact local_readDelimited.andThen fun content => local_pure (bytes content)
  | startGroup | endGroup => exact local_error Fault.unexpectedEndGroup

/-- Reads a value of a field and adds it to those that are there. -/
def readInto (budget : Nat) (fields : List (Nat × WireValue)) (number : Nat) (w : WireType) :
    Reader (List (Nat × WireValue)) :=
  andThen (read budget number w) fun value rest => .ok (fields ++ [(number, value)], rest)

/-- A group's fields are read one after another. -/
theorem read_startGroup (budget number : Nat) :
    read (budget + 1) number .startGroup =
      andThen (untilEndGroup number (readInto budget) []) fun fields rest =>
        .ok (group fields, rest) := by
  funext input
  unfold read andThen
  extract_lets step
  have hstep : step = readInto budget := by
    funext fields n w rest
    unfold readInto andThen
    simp only [step]
    cases read budget n w rest <;> rfl
  rw [hstep]
  cases untilEndGroup number (readInto budget) [] input <;> rfl

/-- Reading the value of a field of no schema is local. -/
theorem local_read (budget number : Nat) (w : WireType) : Local (read budget number w) := by
  -- Only groups are nested, so only they need the budget.
  induction budget generalizing number w with
  | zero =>
    by_cases hw : w = .startGroup
    · subst hw
      exact local_error Fault.recursionLimit
    · rw [read_of_ne_startGroup 0 number hw]
      exact local_readPlain w
  | succ budget ih =>
    by_cases hw : w = .startGroup
    · subst hw
      rw [read_startGroup]
      refine (local_untilEndGroup (fun fields n w => ?_) number []).andThen fun _ => local_pure _
      exact (ih n w).andThen fun _ => local_pure _
    · rw [read_of_ne_startGroup (budget + 1) number hw]
      exact local_readPlain w

end WireValue

/-- Skipping a value that is no group is reading it. -/
theorem skip_of_ne_startGroup (budget number : Nat) {w : WireType} (hw : w ≠ .startGroup) :
    skip (budget + 1) number w = andThen (WireValue.readPlain w) fun _ rest => .ok ((), rest) := by
  funext input
  cases w with
  | startGroup => exact absurd rfl hw
  | varint =>
    simp only [skip, WireValue.readPlain, andThen]
    cases readVarint input <;> rfl
  | fixed64 =>
    simp only [skip, skipBytes, WireValue.readPlain, andThen, readFixed64]
    split <;> rfl
  | fixed32 =>
    simp only [skip, skipBytes, WireValue.readPlain, andThen, readFixed32]
    split <;> rfl
  | lengthDelimited =>
    simp only [skip, skipBytes, WireValue.readPlain, andThen, readDelimited]
    cases readVarint input with
    | error f => rfl
    | ok r =>
      simp only
      split <;> rfl
  | endGroup => rfl

/-- Skipping the value of a field is local. -/
theorem local_skip (budget number : Nat) (w : WireType) : Local (skip budget number w) := by
  induction budget generalizing number w with
  | zero => exact local_error Fault.recursionLimit
  | succ budget ih =>
    by_cases hw : w = .startGroup
    · subst hw
      exact local_untilEndGroup (fun _ n w => ih n w) number ()
    · rw [skip_of_ne_startGroup budget number hw]
      exact (WireValue.local_readPlain w).andThen fun _ => local_pure ()

end ColumnarRecords.Wire
