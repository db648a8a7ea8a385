import ColumnarRecords.Metadata.Token
import ColumnarRecords.Proofs.Text.Utf8

/-!
# A text is no shorter than its tokens

What the tokens of a text hold was written in it, with at least as many bytes: the letters of words,
the digits of whole numbers, marks, and the bytes of strings, which escapes only shorten
(`Token.weight_split_le`). That bounds how much metadata a text can say.
-/

namespace ColumnarRecords

namespace Text

/-- The number of bytes of a text. -/
def size (s : List Char) : Nat := (s.flatMap Utf8.encodeChar).length

/-- The bytes of a text are those of its first character and of the others. -/
theorem size_cons (c : Char) (s : List Char) :
    size (c :: s) = (Utf8.encodeChar c).length + size s := by
  rw [size, List.flatMap_cons, List.length_append, size]

/-- The bytes of a text are those of its parts. -/
theorem size_append (s t : List Char) : size (s ++ t) = size s + size t := by
  rw [size, List.flatMap_append, List.length_append, size, size]

/-- A text has no fewer bytes than characters. -/
theorem length_le_size (s : List Char) : s.length ≤ size s := by
  induction s with
  | nil => exact Nat.le_refl _
  | cons c rest ih =>
    have hc := Utf8.length_encodeChar c
    rw [size_cons, List.length_cons]
    omega

/-- Characters at the start and the text after them have no more bytes than the text. -/
theorem length_add_size_drop_le (count : Nat) (s : List Char) :
    (s.take count).length + size (s.drop count) ≤ size s := by
  have hle := length_le_size (s.take count)
  have happend := size_append (s.take count) (s.drop count)
  rw [List.take_append_drop] at happend
  omega

/-- The end of a text has no more bytes than the text. -/
theorem size_drop_le (count : Nat) (s : List Char) : size (s.drop count) ≤ size s :=
  Nat.le_trans (Nat.le_add_left _ _) (length_add_size_drop_le count s)

/-- Characters of a kind at the start and the text after them have no more bytes than the text. -/
theorem length_add_size_dropWhile_le (p : Char → Bool) (s : List Char) :
    (s.takeWhile p).length + size (s.dropWhile p) ≤ size s := by
  have hle := length_le_size (s.takeWhile p)
  have happend := size_append (s.takeWhile p) (s.dropWhile p)
  rw [List.takeWhile_append_dropWhile] at happend
  omega

/-- Characters of a kind at the start, and what is dropped for them, have no more bytes than the
text. -/
theorem length_add_size_drop_takeWhile_le (p : Char → Bool) (s : List Char) :
    (s.takeWhile p).length + size (s.drop (s.takeWhile p).length) ≤ size s := by
  have hle := length_add_size_drop_le (s.takeWhile p).length s
  have htake : s.take (s.takeWhile p).length = s.takeWhile p :=
    List.prefix_iff_eq_take.1 (List.takeWhile_prefix p) |>.symm
  rw [htake] at hle
  exact hle

namespace Escape

/-- The character of a code point has no more bytes than the code point has digits, if they are four
or more. -/
theorem size_codePoint?_le {count : Nat} (hcount : 4 ≤ count) {s rest : List Char} {c : Char}
    (h : codePoint? count s = some (c, rest)) :
    (Utf8.encodeChar c).length + size rest ≤ size s := by
  simp only [codePoint?, Option.ite_none_right_eq_some, Option.some.injEq, Prod.mk.injEq] at h
  obtain ⟨⟨hlength, -, -⟩, -, rfl⟩ := h
  have hc := Utf8.length_encodeChar c
  have hle := length_add_size_drop_le count s
  omega

/-- An escape stands for no more bytes than it is written with. -/
theorem length_read?_le {s rest : List Char} {bytes : List UInt8}
    (h : read? s = some (bytes, rest)) : bytes.length + size rest ≤ size s := by
  unfold read? at h
  split at h
  · cases h
  · rename_i rest'
    simp only [Option.ite_none_left_eq_some, Option.some.injEq, Prod.mk.injEq] at h
    obtain ⟨-, rfl, rfl⟩ := h
    have hx := Utf8.length_encodeChar 'x'
    have hle := size_drop_le ((rest'.take 2).takeWhile (isDigitIn 16)).length rest'
    rw [size_cons, List.length_singleton]
    omega
  · obtain ⟨⟨c, after⟩, hr, he⟩ := Option.map_eq_some_iff.1 h
    obtain ⟨rfl, rfl⟩ := Prod.mk.inj he
    have hle := size_codePoint?_le (by omega) hr
    rw [size_cons]
    exact Nat.le_trans hle (Nat.le_add_left _ _)
  · obtain ⟨⟨c, after⟩, hr, he⟩ := Option.map_eq_some_iff.1 h
    obtain ⟨rfl, rfl⟩ := Prod.mk.inj he
    have hle := size_codePoint?_le (by omega) hr
    rw [size_cons]
    exact Nat.le_trans hle (Nat.le_add_left _ _)
  · rename_i c rest' _ _ _
    have hc := Utf8.length_encodeChar c
    split at h
    · obtain ⟨rfl, rfl⟩ := Prod.mk.inj (Option.some.inj h)
      rw [size_cons, List.length_singleton]
      omega
    · simp only [Option.ite_none_left_eq_some, Option.some.injEq, Prod.mk.injEq] at h
      obtain ⟨hsome, rfl, rfl⟩ := h
      rw [not_or] at hsome
      -- One digit at least is taken, for one byte.
      have hpos := List.length_pos_iff.2 hsome.1
      obtain ⟨k, hk⟩ := Nat.exists_eq_add_of_le' hpos
      have hle := size_drop_le k rest'
      rw [hk, List.drop_succ_cons, size_cons, List.length_singleton]
      omega

end Escape

end Text

namespace Metadata.Token

open Text

/-- How many bytes a token takes in a text at least. -/
def weight : Token → Nat
  | word name => name.length
  | integer digits _ => digits.length
  | number _ => 0
  | string content => content.length + 2
  | mark _ => 1

/-- How many bytes tokens take in a text at least. -/
def totalWeight : List Token → Nat
  | [] => 0
  | t :: rest => t.weight + totalWeight rest

/-- The weight of tokens is that of its parts. -/
theorem totalWeight_append (tokens tokens' : List Token) :
    totalWeight (tokens ++ tokens') = totalWeight tokens + totalWeight tokens' := by
  induction tokens with
  | nil => rw [List.nil_append, totalWeight, Nat.zero_add]
  | cons t rest ih => rw [List.cons_append, totalWeight, totalWeight, ih, Nat.add_assoc]

/-- A string stands for no more bytes than it is written with, its closing quote not counted. -/
theorem length_readString_le {quote : Char} {s rest : List Char} {content : List UInt8}
    (h : readString quote s = .ok (content, rest)) :
    content.length + 1 + size rest ≤ size s := by
  fun_induction readString quote s generalizing content with
  | case1 => cases h
  | case2 => cases h
  | case3 => cases h
  | case4 rest' bytes after hescape content' after' hread ih =>
    obtain ⟨rfl, rfl⟩ := Prod.mk.inj (Except.ok.inj h)
    have hone := Escape.length_read?_le hescape
    have hothers := ih hread
    have hslash := Utf8.length_encodeChar '\\'
    rw [size_cons, List.length_append]
    omega
  | case5 after _ =>
    obtain ⟨rfl, rfl⟩ := Prod.mk.inj (Except.ok.inj h)
    have hquote := Utf8.length_encodeChar quote
    rw [size_cons, List.length_nil]
    omega
  | case6 => cases h
  | case7 => cases h
  | case8 c rest' _ _ _ content' after' hread ih =>
    obtain ⟨rfl, rfl⟩ := Prod.mk.inj (Except.ok.inj h)
    have hothers := ih hread
    rw [size_cons, List.length_append]
    omega

/-- A whole number is written with its digits. -/
theorem length_integerPart_le (s : List Char) :
    (integerPart s).1.length + size (integerPart s).2.2 ≤ size s := by
  unfold integerPart
  split
  · rename_i rest
    have hzero := Utf8.length_encodeChar '0'
    simp only
    rw [size_cons]
    split
    · -- The mark of the base is dropped with the digits.
      have hle := length_add_size_drop_takeWhile_le (Text.Escape.isDigitIn 16) (rest.drop 1)
      rw [List.drop_drop, Nat.add_comm 1] at hle
      have hmark := size_drop_le 1 rest
      simp only
      omega
    · split
      · have hle := length_add_size_drop_takeWhile_le (Text.Escape.isDigitIn 8) rest
        simp only
        omega
      · simp only [List.length_singleton]
        omega
  · exact length_add_size_dropWhile_le Floating.isDigit s

/-- The base of a whole number is at most sixteen. -/
theorem base_integerPart_le (s : List Char) : (integerPart s).2.1 ≤ 16 := by
  unfold integerPart
  split
  · simp only
    split
    · exact Nat.le_refl _
    · split <;> simp
  · simp

/-- The base of a whole number, if it is one, is at most sixteen. -/
def IsPlain : Token → Prop
  | integer _ base => base ≤ 16
  | _ => True

/-- A number is written with its digits, in a base of at most sixteen. -/
theorem weight_readNumber_le {s rest : List Char} {t : Token} (h : readNumber s = .ok (t, rest)) :
    t.weight + size rest ≤ size s ∧ t.IsPlain := by
  unfold readNumber at h
  split at h
  · rename_i numeral _
    obtain ⟨rfl, rfl⟩ := Prod.mk.inj (Except.ok.inj h)
    have hle := size_drop_le numeral.length s
    refine ⟨?_, trivial⟩
    rw [weight, Nat.zero_add]
    split
    · exact Nat.le_trans (size_drop_le 1 _) hle
    · exact hle
  · simp only at h
    split at h
    · cases h
    · obtain ⟨rfl, rfl⟩ := Prod.mk.inj (Except.ok.inj h)
      exact ⟨length_integerPart_le s, base_integerPart_le s⟩

/-- A token and the text after it have no more bytes than the text. -/
theorem weight_read_le {c : Char} {s rest : List Char} {t : Token}
    (h : read c s = .ok (t, rest)) : t.weight + size rest ≤ size (c :: s) ∧ t.IsPlain := by
  have hc := Utf8.length_encodeChar c
  unfold read at h
  split at h
  · obtain ⟨rfl, rfl⟩ := Prod.mk.inj (Except.ok.inj h)
    have hle := length_add_size_dropWhile_le isWordPart s
    refine ⟨?_, trivial⟩
    rw [weight, List.length_cons, size_cons]
    omega
  · split at h
    · exact weight_readNumber_le h
    · split at h
      · split at h
        · cases h
        · rename_i content after hread
          obtain ⟨rfl, rfl⟩ := Prod.mk.inj (Except.ok.inj h)
          have hle := length_readString_le hread
          refine ⟨?_, trivial⟩
          rw [weight, size_cons]
          omega
      · split at h
        · obtain ⟨rfl, rfl⟩ := Prod.mk.inj (Except.ok.inj h)
          refine ⟨?_, trivial⟩
          rw [weight, size_cons]
          omega
        · cases h

/-- The tokens of a text take no more bytes than the text has. -/
theorem weight_split_le (s : List Char) :
    totalWeight (split s).1 ≤ size s ∧ ∀ t ∈ (split s).1, t.IsPlain := by
  fun_induction split s with
  | case1 => exact ⟨Nat.le_refl _, fun _ h => absurd h List.not_mem_nil⟩
  | case2 c rest _ ih =>
    rw [size_cons]
    exact ⟨Nat.le_trans ih.1 (Nat.le_add_left _ _), ih.2⟩
  | case3 rest _ ih =>
    have hcomment := length_add_size_dropWhile_le (fun x => x != '\n') rest
    rw [size_cons]
    exact ⟨by omega, ih.2⟩
  | case4 => exact ⟨Nat.zero_le _, fun _ h => absurd h List.not_mem_nil⟩
  | case5 c rest _ _ token after hread ih =>
    obtain ⟨hone, hplain⟩ := weight_read_le hread
    refine ⟨?_, ?_⟩
    · rw [totalWeight]
      exact Nat.le_trans (Nat.add_le_add_left ih.1 _) hone
    · intro t ht
      rcases List.mem_cons.1 ht with rfl | ht
      · exact hplain
      · exact ih.2 t ht

end Metadata.Token

end ColumnarRecords
