import ColumnarRecords.Proofs.Column.Concatenation
import ColumnarRecords.Proofs.Column.Grammar

/-!
# Readers go on and loops over them end

Reading a value takes at least a byte and looks at no byte after the value, and what is delimited
is exactly as long as announced. The columns of lists and maps are read value by value until no byte
is left, with nothing that counts the rounds. Each round takes a byte, so there are at most as many
rounds as there are bytes (`Column.Rounds.length_add_length_le`), and the loop comes to an end
whatever the bytes are (`Column.terminates_readAll`). What ends it is that no byte is left, or the
first value that cannot be read.
-/

namespace ColumnarRecords.Column

open Descriptor

section Loop

variable {α : Type}

/-- Rounds of the loop over the values of bytes: the values that were read, and the bytes that are
left. -/
inductive Rounds (read : Reader α) (bytes : List UInt8) : List α → List UInt8 → Prop where
  /-- There was no round. -/
  | start : Rounds read bytes [] bytes
  /-- There is a further round as long as a byte is left. -/
  | next {values : List α} {left rest : List UInt8} {a : α} (h : Rounds read bytes values left)
    (hne : left ≠ []) (hread : read left = .ok (a, rest)) : Rounds read bytes (values ++ [a]) rest

/-- The loop over the values of bytes ends with an answer. -/
structure Terminates (read : Reader α) (bytes : List UInt8) (answer : Except Fault (List α)) :
    Prop where
  /-- However many rounds there were, there were as many bytes for them. -/
  bounded : ∀ values left, Rounds read bytes values left →
    values.length + left.length ≤ bytes.length
  /-- After some rounds no byte is left, or no value can be read from the bytes that are left. -/
  ends : ∃ values left, Rounds read bytes values left ∧
    (left = [] ∧ answer = .ok values ∨
      left ≠ [] ∧ ∃ fault, read left = .error fault ∧ answer = .error fault)

variable {read : Reader α}

/-- A reader that tells values apart leaves the end of the bytes, less than all of them, and leaves
alone what follows. -/
theorem Separates.suffix (h : Separates read) {a r : List UInt8} {v : α}
    (hread : read a = .ok (v, r)) :
    r <:+ a ∧ r ≠ a ∧ ∀ b, read (a ++ b) = .ok (v, r ++ b) := by
  obtain ⟨used, hused, hsame⟩ := h.isLocal a v r hread
  refine ⟨⟨used, hused.symm⟩, ?_, fun b => ?_⟩
  · rintro rfl
    exact Nat.lt_irrefl _ (h.length_lt hread)
  · rw [hused, List.append_assoc]
    exact hsame (r ++ b)

/-- A round takes a byte at least, so no more values are read than there were bytes. -/
theorem Rounds.length_add_length_le (hread : Separates read) {bytes left : List UInt8}
    {values : List α} (h : Rounds read bytes values left) :
    values.length + left.length ≤ bytes.length := by
  induction h with
  | start => simp
  | next h hne hnext ih =>
    have hlt := hread.length_lt hnext
    rw [List.length_append, List.length_singleton]
    omega

/-- After rounds, all values are those that were read and those of what is left. -/
theorem Rounds.readAll_eq (hread : Separates read) {bytes left : List UInt8} {values : List α}
    (h : Rounds read bytes values left) :
    readAll read bytes = (readAll read left).map (values ++ ·) := by
  induction h with
  | start => cases readAll read bytes <;> rfl
  | @next values left rest a h hne hnext ih =>
    have hleft : readAll read left = (readAll read rest).map (a :: ·) := by
      rw [hread.readAll_eq, if_neg hne, hnext]
    rw [ih, hleft]
    cases readAll read rest with
    | error f => rfl
    | ok others => exact congrArg Except.ok (List.append_cons values a others)

/-- Reading all values comes to an end, whatever the bytes are. -/
theorem terminates_readAll (hread : Separates read) (bytes : List UInt8) :
    Terminates read bytes (readAll read bytes) := by
  refine ⟨fun values left h => h.length_add_length_le hread, ?_⟩
  -- Wherever the loop has come to, fewer bytes are left with each further round.
  suffices hgo : ∀ left values, Rounds read bytes values left →
      ∃ values left, Rounds read bytes values left ∧
        (left = [] ∧ readAll read bytes = .ok values ∨
          left ≠ [] ∧ ∃ fault, read left = .error fault ∧ readAll read bytes = .error fault) from
    hgo bytes [] .start
  intro left
  induction left using readAll.induct read with
  | case1 =>
    intro values h
    have hnone : readAll read [] = .ok [] := by rw [readAll, if_pos rfl]
    have hall : readAll read bytes = .ok (values ++ []) := by
      rw [h.readAll_eq hread, hnone]
      rfl
    exact ⟨values, [], h, .inl ⟨rfl, by rwa [List.append_nil] at hall⟩⟩
  | case2 left hne fault hfault =>
    intro values h
    have hnone : readAll read left = .error fault := by
      rw [hread.readAll_eq, if_neg hne, hfault]
    have hall : readAll read bytes = .error fault := by
      rw [h.readAll_eq hread, hnone]
      rfl
    exact ⟨values, left, h, .inr ⟨hne, fault, hfault, hall⟩⟩
  | case3 left hne a rest hnext hlt ih => exact fun values h => ih _ (h.next hne hnext)
  | case4 left hne a rest hnext hnlt => exact absurd (hread.length_lt hnext) hnlt

end Loop

/-- What is delimited is as long as the varint before it announces. -/
theorem readDelimited_announced {a content r : List UInt8}
    (h : readDelimited a = .ok (content, r)) :
    ∃ length n, a = length ++ (content ++ r) ∧ readVarint a = .ok (n, content ++ r) ∧
      content.length = n.toNat := by
  obtain ⟨length, rfl, hvarint, hcount⟩ := readDelimited_eq_ok_iff.1 h
  exact ⟨length, .ofNat (Wire.sevens length), rfl,
    readVarint_eq_ok_iff.2 ⟨length, rfl, hvarint, hvarint.toNat_word⟩,
    by rw [hvarint.toNat_word, hcount]⟩

/-- Reading a value, or what is delimited, leaves less than there was and does not depend on what
follows, so that decoding the column of a list or a map ends after at most as many values as there
are bytes. -/
theorem readers_advance_and_loops_end (p : Pool) :
    (∀ kind a v r, readValue p kind a = .ok (v, r) →
        r <:+ a ∧ r ≠ a ∧ ∀ b, readValue p kind (a ++ b) = .ok (v, r ++ b)) ∧
      (∀ a content r, readDelimited a = .ok (content, r) →
        (r <:+ a ∧ r ≠ a ∧ ∀ b, readDelimited (a ++ b) = .ok (content, r ++ b)) ∧
          ∃ length n, a = length ++ (content ++ r) ∧ readVarint a = .ok (n, content ++ r) ∧
            content.length = n.toNat) ∧
      (∀ t f bytes m, f.arity = .list → f.isGroup = false →
        ∃ answer, Terminates (readValue p f.kind) bytes answer ∧
          decodeField p t f bytes m =
            answer.map fun values => m.assign t f (.list (listOf m f ++ values))) ∧
      ∀ t f entry bytes m, f.arity = .map entry →
        ∃ answer, Terminates (readEntry p entry) bytes answer ∧
          decodeField p t f bytes m =
            answer.map fun entries => m.assign t f (.map (insertAll entries (mapOf m f))) := by
  refine ⟨fun kind a v r h => (separates_readValue p kind).suffix h, fun a content r h => ?_,
    fun t f bytes m harity hgroup => ?_, fun t f entry bytes m harity => ?_⟩
  · exact ⟨separates_readDelimited.suffix h, readDelimited_announced h⟩
  · exact ⟨_, terminates_readAll (separates_readValue p f.kind) bytes,
      decodeField_of_list harity hgroup bytes m⟩
  · exact ⟨_, terminates_readAll (separates_readEntry p entry) bytes,
      decodeField_of_map harity bytes m⟩

/-- A text is read whatever follows it. Of the numbers in a column the third is cut off, which ends
the loop after two rounds, and the entries of a map are read to the end. -/
theorem readers_advance_regular :
    (readValue Sample.regular.pool (.scalar .string) [2, 104, 105, 7] = .ok (.string "hi", [7]) ∧
        [7] <:+ [(2 : UInt8), 104, 105, 7] ∧
        readValue Sample.regular.pool (.scalar .string) ([2, 104, 105, 7] ++ [255]) =
          .ok (.string "hi", [7] ++ [255])) ∧
      (readDelimited [2, 104, 105, 7] = .ok ([104, 105], [7]) ∧
        ∃ (length : List UInt8) (n : UInt64), [2, 104, 105, 7] = length ++ ([104, 105] ++ [7]) ∧
          readVarint [2, 104, 105, 7] = .ok (n, [104, 105] ++ [7]) ∧ 2 = n.toNat) ∧
      (regularNumbers.arity = .list ∧ regularNumbers.isGroup = false ∧
        Terminates (readValue Sample.regular.pool regularNumbers.kind) [1, 172, 2, 128]
          (.error .invalidVarint)) ∧
      regularMap.arity = .map 1 ∧
        ∃ entries, Terminates (readEntry Sample.regular.pool 1) [2, 16, 7, 3, 10, 1, 107]
          (.ok entries) := by
  obtain ⟨hvalue, hdelimited, hlist, hmap⟩ := readers_advance_and_loops_end Sample.regular.pool
  have htext : readValue Sample.regular.pool (.scalar .string) [2, 104, 105, 7] =
      .ok (.string "hi", [7]) := by cbv
  have hcontent : readDelimited [2, 104, 105, 7] = .ok ([104, 105], [7]) := by cbv
  refine ⟨⟨htext, (hvalue _ _ _ _ htext).1, (hvalue _ _ _ _ htext).2.2 [255]⟩,
    ⟨hcontent, (hdelimited _ _ _ hcontent).2⟩, ⟨rfl, rfl, ?_⟩, rfl, ?_⟩
  · obtain ⟨answer, hends, hdecode⟩ :=
      hlist Sample.regular.type regularNumbers [1, 172, 2, 128] .empty rfl rfl
    have hfault : decodeField Sample.regular.pool Sample.regular.type regularNumbers
        [1, 172, 2, 128] .empty = .error .invalidVarint := by cbv
    rw [hfault] at hdecode
    cases answer with
    | error fault => rwa [← Except.error.inj hdecode] at hends
    | ok values => cases hdecode
  · obtain ⟨answer, hends, hdecode⟩ :=
      hmap Sample.regular.type regularMap 1 [2, 16, 7, 3, 10, 1, 107] .empty rfl
    have hread : (decodeField Sample.regular.pool Sample.regular.type regularMap
        [2, 16, 7, 3, 10, 1, 107] .empty).isOk = true := by cbv
    rw [hdecode] at hread
    cases answer with
    | error fault => cases hread
    | ok entries => exact ⟨entries, hends⟩

end ColumnarRecords.Column
