import Mathlib
import ColumnarRecords.Proofs.Metadata.Binary
import ColumnarRecords.Proofs.Metadata.Reading

/-!
# The two forms of metadata

Bytes are taken for the text form if they are that, and for the binary form only if they are not. So
metadata is read back from its binary form unless this happens to be a text form too
(`Metadata.parse_encode`). It seldom is: the first byte of a class name's field is that of a line
end, the next is the length of the name, and a text goes on only with a blank, a comment or the name
of a field, which leaves nine lengths (`Metadata.length_of_text?`). Where it is one, the text says
something else, as it takes more bytes to say as much (`Metadata.text?_encode_ne`).
-/

namespace ColumnarRecords

open Wire Text

namespace Metadata

/-! ## Which form is read -/

/-- The metadata of which bytes are the text form. -/
def text? (bytes : List UInt8) : Option Metadata :=
  match Utf8.decodeFrom 0 bytes with
  | .error _ => none
  | .ok s => (ofText s).toOption

/-- Bytes that are the text form of metadata are that of a text that says it. -/
theorem exists_of_text?_eq_some {bytes : List UInt8} {m : Metadata} (h : text? bytes = some m) :
    ∃ s, Utf8.decodeFrom 0 bytes = .ok s ∧ ofText s = .ok m := by
  unfold text? at h
  split at h
  · cases h
  · rename_i s hs
    refine ⟨s, hs, ?_⟩
    cases hm : ofText s with
    | error f => rw [hm] at h; cases h
    | ok m' =>
      rw [hm] at h
      exact congrArg Except.ok (Option.some.inj h)

/-- Bytes that are the text form of metadata are read as this. -/
theorem parse_of_text?_eq_some {bytes : List UInt8} {m : Metadata} (h : text? bytes = some m) :
    parse bytes = .ok m := by
  obtain ⟨s, hs, hm⟩ := exists_of_text?_eq_some h
  unfold parse
  simp only [hs, hm]

/-- Bytes that are no text form are read as the binary form. -/
theorem parse_of_text?_eq_none {bytes : List UInt8} {m : Metadata} (h : text? bytes = none)
    (hm : decode bytes = .ok m) : parse bytes = .ok m := by
  unfold parse
  cases hs : Utf8.decodeFrom 0 bytes with
  | error f => simp only [hm]
  | ok s =>
    have hnot : ∃ f, ofText s = .error f := by
      cases htext : ofText s with
      | error f => exact ⟨f, rfl⟩
      | ok m' =>
        rw [text?, hs] at h
        simp only [htext] at h
        cases h
    obtain ⟨f, hf⟩ := hnot
    simp only [hf, hm]

/-! ## How a text form begins -/

/-- A word begins with the character at which it is read. -/
theorem head_of_read {c : Char} {s rest w : List Char} (h : Token.read c s = .ok (.word w, rest)) :
    w.head? = some c := by
  unfold Token.read at h
  split at h
  · obtain ⟨hword, -⟩ := Prod.mk.inj (Except.ok.inj h)
    rw [← Token.word.inj hword]
    rfl
  · split at h
    · unfold Token.readNumber at h
      split at h
      · cases h
      · simp only at h
        split at h <;> cases h
    · split at h
      · split at h <;> cases h
      · split at h <;> cases h

/-- A line end before a text does not count. -/
theorem ofText_newline (s : List Char) : ofText ('\n' :: s) = ofText s := by
  have hspace : Token.isSpace '\n' = true := by decide
  unfold ofText
  rw [Token.split, if_pos hspace]

/-- The tokens of a text that begins with one are this one and those of the text after it. -/
theorem split_of_read {c : Char} {rest after : List Char} {t : Token}
    (hspace : ¬Token.isSpace c = true) (hcomment : c ≠ '#')
    (hread : Token.read c rest = .ok (t, after)) :
    Token.split (c :: rest) = (t :: (Token.split after).1, (Token.split after).2) := by
  rw [Token.split, if_neg hspace, if_neg hcomment]
  split
  · rename_i hfault
    rw [hread] at hfault
    cases hfault
  · rename_i hsame
    rw [hread] at hsame
    obtain ⟨rfl, rfl⟩ := Prod.mk.inj (Except.ok.inj hsame)
    rfl

/-- A text that begins with no token is no text form. -/
theorem ofText_of_read_eq_error {c : Char} {rest : List Char} {f : Token.Fault}
    (hspace : ¬Token.isSpace c = true) (hcomment : c ≠ '#')
    (hread : Token.read c rest = .error f) : ofText (c :: rest) = .error (.noToken f) := by
  have hsplit : Token.split (c :: rest) = ([], some f) := by
    rw [Token.split, if_neg hspace, if_neg hcomment]
    split
    · rename_i hsame
      rw [hread] at hsame
      rw [Except.error.inj hsame]
    · rename_i hok
      rw [hread] at hok
      cases hok
  unfold ofText
  rw [hsplit]
  simp only
  rw [readFields]
  rfl

/-- A text form that is not empty begins with a blank, a comment or the name of a field. -/
theorem head_of_ofText {c : Char} {rest : List Char} {m : Metadata}
    (h : ofText (c :: rest) = .ok m) :
    Token.isSpace c = true ∨ c = '#' ∨ c = 'c' ∨ c = 'f' := by
  by_cases hspace : Token.isSpace c = true
  · exact .inl hspace
  · by_cases hcomment : c = '#'
    · exact .inr (.inl hcomment)
    · cases hread : Token.read c rest with
      | error f =>
        rw [ofText_of_read_eq_error hspace hcomment hread] at h
        cases h
      | ok r =>
        obtain ⟨t, after⟩ := r
        have hplain := (Token.weight_split_le (c :: rest)).2
        unfold ofText at h
        rw [split_of_read hspace hcomment hread] at h hplain
        -- The first token is a word, so the text begins with its first letter.
        rcases head_of_readFields hplain h with rfl | rfl
        · exact .inr (.inr (.inl (Option.some.inj (head_of_read hread)).symm))
        · exact .inr (.inr (.inr (Option.some.inj (head_of_read hread)).symm))

/-! ## Binary forms that are text forms -/

/-- The bytes after the key of a class name: its length, its bytes and the field numbers. -/
def afterKey (name : String) (ids : List Int32) : List UInt8 :=
  varintOfNat (Utf8.encode name).length ++ Utf8.encode name ++
    ids.flatMap fun id => encodeKey 2 .varint ++ encodeVarint (signExtend id)

/-- The binary form of metadata with a class name begins with the byte of a line end. -/
theorem encode_of_className (name : String) (ids : List Int32) :
    encode ⟨some name, ids⟩ = 10 :: afterKey name ids := by
  have hkey : encodeKey 1 .lengthDelimited = [10] := by
    rw [encodeKey, varintOfNat]
    rfl
  unfold encode afterKey
  simp only
  rw [hkey, encodeDelimited]
  rfl

/-- A text whose bytes are the binary form of metadata with a class name begins with a line end. -/
theorem exists_of_decodeFrom_encode {name : String} {ids : List Int32} {s : List Char}
    (h : Utf8.decodeFrom 0 (encode ⟨some name, ids⟩) = .ok s) :
    ∃ s', s = '\n' :: s' ∧ s'.flatMap Utf8.encodeChar = afterKey name ids := by
  have hbytes := Utf8.flatMap_encodeChar_of_decodeFrom h
  rw [encode_of_className] at hbytes
  exact Utf8.eq_cons_of_flatMap_of_lt (by decide) hbytes

/-- The lengths of class names whose binary form can be a text form: those of which the byte is that
of a blank, of the beginning of a comment or of the first letter of a field's name. -/
def ambiguousLengths : List Nat := [9, 10, 11, 12, 13, 32, 35, 99, 102]

/-- The number of a character that a text form can begin with is one of them. -/
theorem toNat_mem_ambiguousLengths {c : Char}
    (h : Token.isSpace c = true ∨ c = '#' ∨ c = 'c' ∨ c = 'f') :
    c.toNat ∈ ambiguousLengths := by
  rcases h with h | rfl | rfl | rfl
  · unfold Token.isSpace at h
    rw [Bool.or_eq_true, Bool.and_eq_true, decide_eq_true_eq, decide_eq_true_eq,
      decide_eq_true_eq] at h
    rcases h with rfl | ⟨hlow, hhigh⟩
    · decide
    · unfold ambiguousLengths
      simp only [List.mem_cons, List.not_mem_nil, or_false]
      omega
  · decide
  · decide
  · decide

/-- They are numbers of characters by themselves. -/
theorem lt_of_mem_ambiguousLengths {n : Nat} (h : n ∈ ambiguousLengths) : n < 128 := by
  unfold ambiguousLengths at h
  simp only [List.mem_cons, List.not_mem_nil, or_false] at h
  omega

/-- A binary form with a class name is a text form only if the name has one of nine lengths. -/
theorem length_of_text? {name : String} {ids : List Int32} {m : Metadata}
    (h : text? (encode ⟨some name, ids⟩) = some m) :
    (Utf8.encode name).length ∈ ambiguousLengths := by
  obtain ⟨s, hs, hm⟩ := exists_of_text?_eq_some h
  obtain ⟨s', rfl, hbytes⟩ := exists_of_decodeFrom_encode hs
  rw [ofText_newline] at hm
  unfold afterKey at hbytes
  rw [varintOfNat, List.append_assoc] at hbytes
  split at hbytes
  · rename_i hshort
    have hbyte := Utf8.toNat_ofNat_of_lt (show (Utf8.encode name).length < 256 by omega)
    rw [List.singleton_append] at hbytes
    obtain ⟨s'', rfl, -⟩ := Utf8.eq_cons_of_flatMap_of_lt (by omega) hbytes
    have hmem := toNat_mem_ambiguousLengths (head_of_ofText hm)
    rw [hbyte, Utf8.toNat_ofNat_of_range (.inl (by omega))] at hmem
    exact hmem
  · -- The first byte of a longer varint is none of a character by itself.
    have hbyte := Utf8.toNat_ofNat_of_lt
      (show (Utf8.encode name).length % 128 + 128 < 256 by omega)
    rw [List.cons_append] at hbytes
    obtain ⟨c, s'', rfl, hc⟩ := Utf8.exists_cons_of_flatMap_of_le (by omega) hbytes
    have hlt := lt_of_mem_ambiguousLengths (toNat_mem_ambiguousLengths (head_of_ofText hm))
    omega

/-- A binary form without a class name is a text form only if it is empty. -/
theorem eq_nil_of_text? {ids : List Int32} {m : Metadata}
    (h : text? (encode ⟨none, ids⟩) = some m) : ids = [] := by
  cases ids with
  | nil => rfl
  | cons id rest =>
    obtain ⟨s, hs, hm⟩ := exists_of_text?_eq_some h
    have hbytes := Utf8.flatMap_encodeChar_of_decodeFrom hs
    have hkey : encodeKey 2 .varint = [16] := by
      rw [encodeKey, varintOfNat]
      rfl
    have hencode : ∃ others, encode ⟨none, id :: rest⟩ = 16 :: others := by
      unfold encode
      rw [List.flatMap_cons, hkey]
      exact ⟨_, rfl⟩
    obtain ⟨others, hothers⟩ := hencode
    rw [hothers] at hbytes
    obtain ⟨s', rfl, -⟩ := Utf8.eq_cons_of_flatMap_of_lt (by decide) hbytes
    have hmem := toNat_mem_ambiguousLengths (head_of_ofText hm)
    exact absurd hmem (by decide)

/-- A field number of which the binary form is part of a text is not negative: the word of a
negative one is written with a byte that no text has. -/
theorem toInt_nonneg_of_mem {id : Int32} (h : ∀ b ∈ encodeVarint (signExtend id), b ≠ 255) :
    0 ≤ id.toInt := by
  by_contra hneg
  have hword := toNat_signExtend id
  have hlow := id.le_toInt
  rw [if_neg hneg] at hword
  have hmem : (255 : UInt8) ∈ encodeVarint (signExtend id) := by
    -- The sixth byte holds bits 35 to 41, all of them set in the word of a negative number.
    have hbits : (signExtend id).toNat / 128 ^ 5 % 128 + 128 = 255 := by omega
    have hbyte := mem_varintOfNat (n := (signExtend id).toNat) 5 (by omega)
    rw [hbits] at hbyte
    exact hbyte
  exact h 255 hmem rfl

/-- The bytes of field numbers that are not negative are what these cost. -/
theorem length_flatMap_fieldIds {ids : List Int32} (h : ∀ id ∈ ids, 0 ≤ id.toInt) :
    (ids.flatMap fun id => encodeKey 2 .varint ++ encodeVarint (signExtend id)).length =
      idsCost ids := by
  have hkey : (encodeKey 2 .varint).length = 1 := by
    rw [encodeKey, varintOfNat]
    rfl
  rw [List.length_flatMap, idsCost]
  refine congrArg List.sum (List.map_congr_left fun id hid => ?_)
  rw [List.length_append, hkey, idCost, if_pos (h id hid)]

/-- A binary form with a class name that is a text form too says something else as a text: to say
the same a text takes more bytes. -/
theorem text?_encode_ne {name : String} {ids : List Int32} :
    text? (encode ⟨some name, ids⟩) ≠ some ⟨some name, ids⟩ := by
  intro h
  have hlength := lt_of_mem_ambiguousLengths (length_of_text? h)
  obtain ⟨s, hs, hm⟩ := exists_of_text?_eq_some h
  obtain ⟨s', rfl, hbytes⟩ := exists_of_decodeFrom_encode hs
  rw [ofText_newline] at hm
  have hcost := cost_ofText_le hm
  -- All bytes are those of a text, so no number is negative and the costs are those of the bytes.
  have hids : ∀ id ∈ ids, 0 ≤ id.toInt := by
    intro id hid
    refine toInt_nonneg_of_mem fun b hb => ?_
    have hmem : b ∈ afterKey name ids := by
      unfold afterKey
      refine List.mem_append_right _ (List.mem_flatMap.2 ⟨id, hid, ?_⟩)
      exact List.mem_append_right _ hb
    rw [← hbytes] at hmem
    obtain ⟨c, -, hc⟩ := List.mem_flatMap.1 hmem
    exact Utf8.ne_of_mem_encodeChar hc
  have hsize : size s' = 1 + (Utf8.encode name).length + idsCost ids := by
    have hvarint : (varintOfNat (Utf8.encode name).length).length = 1 := by
      rw [varintOfNat, if_pos hlength]
      rfl
    rw [size, hbytes, afterKey, List.length_append, List.length_append, hvarint,
      length_flatMap_fieldIds hids]
  have hsaid : cost ⟨some name, ids⟩ = (Utf8.encode name).length + 11 + idsCost ids := rfl
  omega

/-! ## Reading the binary form back -/

/-- Metadata whose binary form is no text form is read back from it; a binary form that is a text
form too is read as what the text says. Without a class name this is the same, and with one it never
is: so metadata is read back exactly if it has no class name or its binary form is no text form. The
binary form can be a text form only if the class name has one of nine lengths. -/
theorem parse_encode {m : Metadata} (h : m.Encodable) :
    parse (encode m) = .ok ((text? (encode m)).getD m) ∧
      (parse (encode m) = .ok m ↔ m.className = none ∨ text? (encode m) = none) ∧
      ∀ name, m.className = some name → (Utf8.encode name).length ∉ ambiguousLengths →
        text? (encode m) = none := by
  obtain ⟨className, ids⟩ := m
  have hparse : parse (encode ⟨className, ids⟩) =
      .ok ((text? (encode ⟨className, ids⟩)).getD ⟨className, ids⟩) := by
    cases htext : text? (encode ⟨className, ids⟩) with
    | none => exact parse_of_text?_eq_none htext (decode_encode h)
    | some m' => exact parse_of_text?_eq_some htext
  refine ⟨hparse, ?_, ?_⟩
  · rw [hparse]
    cases htext : text? (encode ⟨className, ids⟩) with
    | none => simp
    | some m' =>
      cases className with
      | none =>
        -- Only the empty form is a text form, and the text says nothing either.
        obtain rfl := eq_nil_of_text? htext
        have hempty : text? (encode ⟨none, []⟩) = some ⟨none, []⟩ := by
          cbv
        obtain rfl := Option.some.inj (htext.symm.trans hempty)
        simp
      | some name =>
        have hne : m' ≠ ⟨some name, ids⟩ := by
          rintro rfl
          exact text?_encode_ne htext
        simp [hne]
  · rintro name rfl hlength
    cases htext : text? (encode ⟨some name, ids⟩) with
    | none => rfl
    | some m' => exact absurd (length_of_text? htext) hlength

/-- Metadata with a class name of fourteen bytes and a negative field number is read back. -/
theorem parse_encode_person :
    Encodable ⟨some "example.Person", [1, 2, -1]⟩ ∧
      parse (encode ⟨some "example.Person", [1, 2, -1]⟩) =
        .ok ⟨some "example.Person", [1, 2, -1]⟩ := by
  have hlength : (Utf8.encode "example.Person").length = 14 := by decide
  have hencodable : Encodable ⟨some "example.Person", [1, 2, -1]⟩ := by
    intro name hname
    obtain rfl := Option.some.inj hname
    omega
  obtain ⟨-, hiff, hnone⟩ := parse_encode hencodable
  refine ⟨hencodable, hiff.2 (.inr (hnone _ rfl ?_))⟩
  rw [hlength]
  decide

/-- Metadata with a class name of thirty-five bytes is not: the byte of its length begins a comment,
which the rest of the binary form is part of. -/
theorem parse_encode_pageVisit :
    (Utf8.encode "example.analytics.storage.PageVisit").length = 35 ∧
      parse (encode ⟨some "example.analytics.storage.PageVisit", []⟩) = .ok empty ∧
      parse (encode ⟨some "example.analytics.storage.PageVisit", []⟩) ≠
        .ok ⟨some "example.analytics.storage.PageVisit", []⟩ := by
  have hparse : parse (encode ⟨some "example.analytics.storage.PageVisit", []⟩) = .ok empty := by
    cbv
  refine ⟨by decide, hparse, ?_⟩
  rw [hparse]
  decide

end Metadata

end ColumnarRecords
