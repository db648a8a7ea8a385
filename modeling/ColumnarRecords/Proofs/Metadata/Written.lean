import ColumnarRecords.Proofs.Metadata.Forms
import ColumnarRecords.Proofs.Text.Escape
import ColumnarRecords.Proofs.Text.Spelling

/-!
# The text form is read back

Every metadata is read from its text form again, whatever its class name and its field numbers
(`Metadata.parse_toText`): the name is written with escapes that are read as its bytes, a number
with its digits, which no zero precedes that would mark another base, and what says nothing is left
out. The text form is read in two steps, and so is the proof. What is written is split into the
tokens `Metadata.tokens` (`split_toText`), part by part, as every part is read as its tokens before
whatever is written after it (`Token.ReadAs`); and these tokens are read as the metadata, field by
field (`readFields_tokens`).
-/

namespace ColumnarRecords

open Floating (isDigit)
open Text

namespace Metadata

namespace Token

/-! ## Texts that are read as tokens -/

/-- A text before a rest is read as tokens, and the rest as it is read by itself. -/
def ReadAs (s : List Char) (tokens : List Token) (rest : List Char) : Prop :=
  split (s ++ rest) = (tokens ++ (split rest).1, (split rest).2)

/-- Nothing is read as no tokens. -/
theorem readAs_nil (rest : List Char) : ReadAs [] [] rest := rfl

/-- What is read as tokens before what is read as tokens is read together. -/
theorem ReadAs.append {s s' rest : List Char} {tokens tokens' : List Token}
    (h : ReadAs s tokens (s' ++ rest)) (h' : ReadAs s' tokens' rest) :
    ReadAs (s ++ s') (tokens ++ tokens') rest := by
  unfold ReadAs at *
  rw [List.append_assoc, h, h', List.append_assoc]

/-- What is read as tokens before nothing is read to its end. -/
theorem ReadAs.split_eq {s : List Char} {tokens : List Token} (h : ReadAs s tokens []) :
    split s = (tokens, none) := by
  have hnil : split [] = ([], none) := by rw [split]
  rw [ReadAs, hnil, List.append_nil, List.append_nil] at h
  exact h

/-- A token that is read is one of the tokens. -/
theorem readAs_of_read {c : Char} {s rest : List Char} {t : Token} (hspace : isSpace c = false)
    (hcomment : c ≠ '#') (hread : read c (s ++ rest) = .ok (t, rest)) :
    ReadAs (c :: s) [t] rest :=
  split_of_read (by simp [hspace]) hcomment hread

/-- A mark that the text form is written with is a token. -/
theorem readAs_mark {c : Char} (hc : c ∈ [',', ':', '[', ']', '-']) (rest : List Char) :
    ReadAs [c] [.mark c] rest := by
  have hkinds : isSpace c = false ∧ c ≠ '#' ∧ isLetter c = false ∧ isDigit c = false ∧ c ≠ '.' ∧
      c ≠ '"' ∧ c ≠ '\'' ∧ isMark c = true := by
    simp only [List.mem_cons, List.not_mem_nil, or_false] at hc
    rcases hc with rfl | rfl | rfl | rfl | rfl <;> decide
  obtain ⟨hspace, hcomment, hletter, hdigit, hpoint, hdouble, hsingle, hmark⟩ := hkinds
  refine readAs_of_read hspace hcomment ?_
  simp [read, hletter, hdigit, hmark, hpoint, hdouble, hsingle]

/-! ## Words -/

/-- Letters come after the digits. -/
theorem le_toNat_of_isLetter {c : Char} (h : isLetter c) : 65 ≤ c.toNat := by
  simp only [isLetter, Bool.or_eq_true, Bool.and_eq_true, decide_eq_true_eq, Char.le_def,
    UInt32.le_iff_toNat_le] at h
  obtain (⟨hlow, -⟩ | ⟨hlow, -⟩) | rfl := h
  · exact hlow
  · exact Nat.le_trans (by decide) hlow
  · decide

/-- Neither a digit nor what comes after the digits is a blank or begins a comment. -/
theorem isSpace_of_le_toNat {c : Char} (h : 48 ≤ c.toNat) : isSpace c = false ∧ c ≠ '#' := by
  have hne : ∀ d : Char, d.toNat < 48 → c ≠ d := by
    rintro _ hd rfl
    omega
  refine ⟨?_, hne '#' (by decide)⟩
  simp only [isSpace, hne ' ' (by decide), Bool.or_eq_false_iff, Bool.and_eq_false_iff,
    decide_eq_false_iff_not, not_false_iff, true_and]
  exact .inr (by omega)

/-- A name before a colon is a word. -/
theorem readAs_word {w : List Char} (hfirst : w.head?.any isLetter) (hw : w.all isWordPart)
    (rest : List Char) : ReadAs w [.word w] (':' :: rest) := by
  have hcolon : isWordPart ':' = false := by decide
  cases w with
  | nil => cases hfirst
  | cons c name =>
    have hc : isLetter c = true := hfirst
    have hname : ∀ x ∈ name, isWordPart x := fun x hx =>
      List.all_eq_true.1 hw x (List.mem_cons_of_mem c hx)
    have hlow := le_toNat_of_isLetter hc
    obtain ⟨hspace, hcomment⟩ := isSpace_of_le_toNat (by omega : 48 ≤ c.toNat)
    refine readAs_of_read hspace hcomment ?_
    rw [read, if_pos hc, List.takeWhile_append_of_pos hname, List.dropWhile_append_of_pos hname,
      List.takeWhile_cons_of_neg (by simp [hcolon]), List.dropWhile_cons_of_neg (by simp [hcolon]),
      List.append_nil]

/-- A name and a colon are a word and a mark. -/
theorem readAs_label {w : List Char} (hfirst : w.head?.any isLetter) (hw : w.all isWordPart)
    (rest : List Char) : ReadAs (w ++ [':']) [.word w, .mark ':'] rest :=
  (readAs_word hfirst hw rest).append (readAs_mark (c := ':') (by simp) rest)

/-! ## Whole numbers -/

/-- Digits before a comma or a closing bracket are no floating point number. -/
theorem floatPart?_digits {digits : List Char} {c : Char} (hne : digits ≠ [])
    (hdigits : ∀ d ∈ digits, isDigit d) (hc : c = ',' ∨ c = ']') (rest : List Char) :
    floatPart? (digits ++ c :: rest) = none := by
  have hkinds : isDigit c = false ∧ c ≠ '.' ∧ c ≠ 'e' ∧ c ≠ 'E' ∧ isFloatMark c = false := by
    rcases hc with rfl | rfl <;> decide
  obtain ⟨hdigit, hpoint, hsmall, hlarge, hmark⟩ := hkinds
  have hwhole : (digits ++ c :: rest).takeWhile isDigit = digits := by
    rw [List.takeWhile_append_of_pos hdigits, List.takeWhile_cons_of_neg (by simp [hdigit]),
      List.append_nil]
  have hafter : (digits ++ c :: rest).dropWhile isDigit = c :: rest :=
    dropWhile_append_eq hdigits (by simpa using hdigit)
  have hexponent : exponentPart (c :: rest) = [] := by simp [exponentPart, hsmall, hlarge]
  unfold floatPart?
  simp only [hwhole, hafter]
  split
  · rename_i hsame
    exact absurd (List.cons.inj hsame).1 hpoint
  · simp [hne, hexponent, hmark]

/-- The digits of a printed number before a comma or a closing bracket are all of a whole number of
base ten: it has no zero before it, which would be the mark of another base. -/
theorem integerPart_toDigits (n : Nat) {c : Char} (hc : c = ',' ∨ c = ']') (rest : List Char) :
    integerPart (Nat.toDigits 10 n ++ c :: rest) = (Nat.toDigits 10 n, 10, c :: rest) := by
  have hdigits : ∀ d ∈ Nat.toDigits 10 n, isDigit d := fun _ hd =>
    Floating.isDigit_of_mem_toDigits hd
  have hkinds : isDigit c = false ∧ c ≠ 'x' ∧ c ≠ 'X' ∧ Escape.isDigitIn 8 c = false := by
    rcases hc with rfl | rfl <;> decide
  obtain ⟨hdigit, hsmall, hlarge, hoctal⟩ := hkinds
  obtain rfl | hpos := Nat.eq_zero_or_pos n
  · simp [integerPart, hsmall, hlarge, hoctal]
  · have hzero := Numeral.head?_toDigits_ne_zero hpos
    unfold integerPart
    split
    · rename_i hsame
      have hhead := congrArg List.head? hsame
      rw [List.head?_append_of_ne_nil _ Nat.toDigits_ne_nil] at hhead
      exact absurd hhead hzero
    · rw [List.takeWhile_append_of_pos hdigits, List.takeWhile_cons_of_neg (by simp [hdigit]),
        List.append_nil, dropWhile_append_eq hdigits (by simpa using hdigit)]

/-- The digits of a printed number before a comma or a closing bracket are a whole number. -/
theorem readAs_digits (n : Nat) {c : Char} (hc : c = ',' ∨ c = ']') (rest : List Char) :
    ReadAs (Nat.toDigits 10 n) [.integer (Nat.toDigits 10 n) 10] (c :: rest) := by
  have hdigits : ∀ d ∈ Nat.toDigits 10 n, isDigit d := fun _ hd =>
    Floating.isDigit_of_mem_toDigits hd
  have hletter : isLetter c = false := by rcases hc with rfl | rfl <;> decide
  have hfloat := floatPart?_digits Nat.toDigits_ne_nil hdigits hc rest
  have hinteger := integerPart_toDigits n hc rest
  obtain ⟨d, digits, hcons⟩ := List.exists_cons_of_ne_nil (Nat.toDigits_ne_nil (n := n) (b := 10))
  have hd : isDigit d := hdigits d (by simp [hcons])
  obtain ⟨hlow, hhigh⟩ := Floating.isDigit_iff.1 hd
  have hword : ¬isLetter d = true := fun h => by
    have := le_toNat_of_isLetter h
    omega
  have hnumber : readNumber (Nat.toDigits 10 n ++ c :: rest) =
      .ok (.integer (Nat.toDigits 10 n) 10, c :: rest) := by
    simp [readNumber, hfloat, hinteger, hletter]
  rw [hcons] at hnumber ⊢
  obtain ⟨hspace, hcomment⟩ := isSpace_of_le_toNat hlow
  refine readAs_of_read hspace hcomment ?_
  rw [read, if_neg hword, if_pos (.inl hd)]
  exact hnumber

/-! ## Strings -/

/-- An escape in a string is read as its bytes. -/
theorem readString_escape {quote : Char} {s rest : List Char} {bytes : List UInt8}
    (h : Escape.read? s = some (bytes, rest)) :
    readString quote ('\\' :: s) =
      (readString quote rest).map fun r => (bytes ++ r.1, r.2) := by
  rw [readString]
  split
  · rename_i hnone
    cases hnone.symm.trans h
  · rename_i hsame
    obtain ⟨rfl, rfl⟩ := Prod.mk.inj (Option.some.inj (h.symm.trans hsame))
    split <;> rename_i hrest <;> rw [hrest] <;> rfl

/-- A character in a string that stands for itself is read as its bytes. -/
theorem readString_char {quote c : Char} {s : List Char} (hslash : c ≠ '\\') (hquote : c ≠ quote)
    (hline : c ≠ '\n') (hzero : c ≠ '\x00') :
    readString quote (c :: s) =
      (readString quote s).map fun r => (Utf8.encodeChar c ++ r.1, r.2) := by
  rw [readString, if_neg hquote, if_neg (by simp [hline, hzero])]
  · cases readString quote s <;> rfl
  · exact fun h => hslash h

/-- A byte in a string is read as it was written. -/
theorem readString_encodeByte (b : UInt8) (s : List Char) :
    readString '"' (Escape.encodeByte b ++ s) =
      (readString '"' s).map fun r => (b :: r.1, r.2) := by
  obtain ⟨e, hbyte, hread⟩ | ⟨c, hbyte, hchar, hslash, hquote, hline, hzero⟩ :=
    Escape.encodeByte_cases b
  · rw [hbyte, List.cons_append, readString_escape (hread s)]
    rfl
  · rw [hbyte, List.singleton_append, readString_char hslash hquote hline hzero, hchar]
    rfl

/-- The bytes of a string are read as they were written, up to the closing quote. -/
theorem readString_flatMap_encodeByte (bytes : List UInt8) (rest : List Char) :
    readString '"' (bytes.flatMap Escape.encodeByte ++ '"' :: rest) = .ok (bytes, rest) := by
  induction bytes with
  | nil =>
    rw [List.flatMap_nil, List.nil_append, readString, if_pos rfl]
    simp
  | cons b bytes ih =>
    rw [List.flatMap_cons, List.append_assoc, readString_encodeByte, ih]
    rfl

/-- Bytes between quotes are a string. -/
theorem readAs_quotedBytes (bytes : List UInt8) (rest : List Char) :
    ReadAs (Escape.quotedBytes bytes) [.string bytes] rest := by
  have hkinds : isSpace '"' = false ∧ isLetter '"' = false ∧ isDigit '"' = false := by decide
  obtain ⟨hspace, hletter, hdigit⟩ := hkinds
  refine readAs_of_read (s := bytes.flatMap Escape.encodeByte ++ ['"']) hspace (by decide) ?_
  rw [List.append_assoc, List.singleton_append]
  simp [read, hletter, hdigit, readString_flatMap_encodeByte]

end Token

open Token (ReadAs readAs_nil readAs_mark readAs_label readAs_digits readAs_quotedBytes)

/-! ## The tokens of metadata -/

/-- The tokens of a field number: its digits, after a minus sign if it is negative. -/
def idTokens (id : Int32) : List Token :=
  match id.toInt with
  | .ofNat n => [.integer (Nat.toDigits 10 n) 10]
  | .negSucc n => [.mark '-', .integer (Nat.toDigits 10 (n + 1)) 10]

/-- The tokens of field numbers with commas between them. -/
def listTokens (ids : List Int32) : List Token :=
  [.mark ','].intercalate (ids.map idTokens)

/-- The tokens of the field of a class name. -/
def nameTokens (name : String) : List Token :=
  [.word "classname".toList, .mark ':'] ++ [.string (Utf8.encode name)]

/-- The tokens of the field of field numbers. -/
def idsTokens (ids : List Int32) : List Token :=
  [.word "field_id".toList, .mark ':'] ++ [.mark '['] ++ listTokens ids ++ [.mark ']']

/-- The tokens of the text form. -/
def tokens (m : Metadata) : List Token :=
  let name := match m.className with
    | none => []
    | some name => [nameTokens name]
  let ids := if m.fieldIds = [] then [] else [idsTokens m.fieldIds]
  [.mark ','].intercalate (name ++ ids)

/-- A printed field number before a comma or a closing bracket is read as its tokens. -/
theorem readAs_id (id : Int32) {c : Char} (hc : c = ',' ∨ c = ']') (rest : List Char) :
    ReadAs (toString id.toInt).toList (idTokens id) (c :: rest) := by
  unfold idTokens
  cases id.toInt with
  | ofNat n =>
    have hprinted : (toString (Int.ofNat n)).toList = Nat.toDigits 10 n := Nat.toList_repr
    rw [hprinted]
    exact readAs_digits n hc rest
  | negSucc n =>
    have hprinted : (toString (Int.negSucc n)).toList = ['-'] ++ Nat.toDigits 10 (n + 1) := by
      rw [← Nat.toList_repr]
      exact String.toList_append
    rw [hprinted]
    exact (readAs_mark (by simp) _).append (readAs_digits (n + 1) hc rest)

/-- Printed field numbers with commas between them are read as their tokens. -/
theorem readAs_ids {ids : List Int32} (hids : ids ≠ []) (rest : List Char) :
    ReadAs ([','].intercalate (ids.map fun id => (toString id.toInt).toList)) (listTokens ids)
      (']' :: rest) := by
  unfold listTokens
  induction ids with
  | nil => exact absurd rfl hids
  | cons id ids ih =>
    cases ids with
    | nil =>
      simp only [List.map_cons, List.map_nil, List.intercalate_singleton]
      exact readAs_id id (.inr rfl) rest
    | cons id' ids =>
      have hothers := ih (List.cons_ne_nil _ _)
      simp only [List.map_cons, List.intercalate_cons_cons] at hothers ⊢
      exact ((readAs_id id (.inl rfl) _).append (readAs_mark (by simp) _)).append hothers

/-- The field of a class name is read as its tokens. -/
theorem readAs_name (name : String) (rest : List Char) :
    ReadAs ("classname:" ++ String.ofList (Escape.quotedBytes (Utf8.encode name))).toList
      (nameTokens name) rest := by
  have hlabel : "classname:".toList = "classname".toList ++ [':'] := by decide
  have hname (rest : List Char) :=
    readAs_label (w := "classname".toList) (by decide) (by decide) rest
  have hquoted : (String.ofList (Escape.quotedBytes (Utf8.encode name))).toList =
      Escape.quotedBytes (Utf8.encode name) := String.toList_ofList
  rw [String.toList_append, hlabel, hquoted]
  exact (hname _).append (readAs_quotedBytes (Utf8.encode name) rest)

/-- The field of field numbers is read as its tokens. -/
theorem readAs_list {ids : List Int32} (hids : ids ≠ []) (rest : List Char) :
    ReadAs ("field_id:[" ++ ",".intercalate (ids.map fun id => toString id.toInt) ++ "]").toList
      (idsTokens ids) rest := by
  have hlabel : "field_id:[".toList = "field_id".toList ++ [':'] ++ ['['] := by decide
  have hcomma : ",".toList = [','] := rfl
  have hclose : "]".toList = [']'] := rfl
  have hname (rest : List Char) :=
    readAs_label (w := "field_id".toList) (by decide) (by decide) rest
  rw [String.toList_append, String.toList_append, String.toList_intercalate, List.map_map, hlabel,
    hcomma, hclose]
  have hopen (rest : List Char) := (hname _).append (readAs_mark (c := '[') (by simp) rest)
  exact ((hopen _).append (readAs_ids hids rest)).append (readAs_mark (c := ']') (by simp) rest)

/-- The text form is read as its tokens, up to its end. -/
theorem split_toText (m : Metadata) : Token.split m.toText.toList = (m.tokens, none) := by
  have hcomma : ",".toList = [','] := rfl
  obtain ⟨className, ids⟩ := m
  refine ReadAs.split_eq ?_
  unfold toText tokens
  rw [String.toList_intercalate, hcomma]
  by_cases hids : ids = []
  · cases className with
    | none =>
      simp only [hids, if_true, List.append_nil, List.map_nil, List.intercalate_nil]
      exact readAs_nil []
    | some name =>
      simp only [hids, if_true, List.append_nil, List.map_cons, List.map_nil,
        List.intercalate_singleton]
      exact readAs_name name []
  · cases className with
    | none =>
      simp only [hids, if_false, List.nil_append, List.map_cons, List.map_nil,
        List.intercalate_singleton]
      exact readAs_list hids []
    | some name =>
      simp only [hids, if_false, List.singleton_append, List.map_cons, List.map_nil,
        List.intercalate_cons_cons, List.intercalate_singleton]
      exact ((readAs_name name _).append (readAs_mark (by simp) _)).append (readAs_list hids [])

/-! ## Reading the tokens -/

/-- The digits of a number within a bound, after a minus sign if it is negative, are its word. -/
theorem readInteger_idTokens (stop : Option Token.Fault) (id : Int32) (rest : List Token) :
    readInteger stop (idTokens id ++ rest) = .ok (id, rest) := by
  have hlow := id.le_toInt
  have hhigh := id.toInt_lt
  have hid := Int32.ofInt_toInt id
  unfold idTokens
  cases hn : id.toInt with
  | ofNat n =>
    rw [hn] at hhigh hid
    have hread := Numeral.readInt_toDigits (show n ≤ 2 ^ 31 - 1 by
      rw [Int.ofNat_eq_natCast] at hhigh
      omega)
    have hword : toInt32 false (Nat.toDigits 10 n) 10 = .ok id := by
      simp only [toInt32, Bool.false_eq_true, if_false, hread]
      exact congrArg Except.ok hid
    simp only [List.singleton_append, readInteger, hword]
    rfl
  | negSucc n =>
    rw [hn] at hlow hid
    have hread := Numeral.readInt_neg_toDigits (show n + 1 ≤ 2 ^ 31 - 1 + 1 by omega)
    have hword : toInt32 true (Nat.toDigits 10 (n + 1)) 10 = .ok id := by
      simp only [toInt32, if_true, hread]
      exact congrArg Except.ok hid
    simp only [List.cons_append, List.nil_append, readInteger, hword]
    rfl

/-- A number before the closing bracket is the last of a list. -/
theorem readElements_last {stop : Option Token.Fault} {tokens rest : List Token} {id : Int32}
    (h : readInteger stop tokens = .ok (id, .mark ']' :: rest)) :
    readElements stop tokens = .ok ([id], rest) := by
  rw [readElements]
  split <;> simp_all

/-- A number before a comma is followed by others. -/
theorem readElements_more {stop : Option Token.Fault} {tokens rest rest' : List Token} {id : Int32}
    {ids : List Int32} (h : readInteger stop tokens = .ok (id, .mark ',' :: rest))
    (hmore : readElements stop rest = .ok (ids, rest')) :
    readElements stop tokens = .ok (id :: ids, rest') := by
  rw [readElements]
  split <;> simp_all

/-- The tokens of field numbers before a closing bracket are a list of them. -/
theorem readElements_listTokens (stop : Option Token.Fault) {ids : List Int32} (hids : ids ≠ [])
    (rest : List Token) : readElements stop (listTokens ids ++ .mark ']' :: rest) = .ok (ids, rest) := by
  unfold listTokens
  induction ids with
  | nil => exact absurd rfl hids
  | cons id ids ih =>
    cases ids with
    | nil =>
      simp only [List.map_cons, List.map_nil, List.intercalate_singleton]
      exact readElements_last (readInteger_idTokens stop id _)
    | cons id' ids =>
      have hothers := ih (List.cons_ne_nil _ _)
      simp only [List.map_cons, List.intercalate_cons_cons, List.append_assoc] at hothers ⊢
      exact readElements_more (readInteger_idTokens stop id _) hothers

/-- The tokens of field numbers in brackets are a list of them. -/
theorem readIntegers_listTokens (stop : Option Token.Fault) {ids : List Int32} (hids : ids ≠ [])
    (rest : List Token) :
    readIntegers stop (.mark '[' :: (listTokens ids ++ .mark ']' :: rest)) = .ok (ids, rest) := by
  have hread := readElements_listTokens stop hids rest
  rw [readIntegers]
  · exact hread
  · intro rest' hsame
    -- A list of numbers does not begin with a closing bracket.
    rw [hsame, readElements] at hread
    cases hread

/-- The tokens of the field of a class name give the name. -/
theorem readField_nameTokens (name : String) (rest : List Token) {m : Metadata}
    (hm : m.className = none) (hrest : readStrings rest = ([], rest)) :
    readField none m (nameTokens name ++ rest) =
      .ok (.field { m with className := some name }, skipSeparator rest) := by
  have htext : readText none (.string (Utf8.encode name) :: rest) = .ok (name, rest) := by
    simp [readText, hrest, Utf8.decode_encode]
  have htokens : nameTokens name ++ rest =
      .word "classname".toList :: .mark ':' :: .string (Utf8.encode name) :: rest := rfl
  rw [htokens, readField]
  simp only [readName, String.ofList_toList, readColon, bind, Except.bind, htext, hm,
    Option.isSome_none, Bool.false_eq_true, if_false]
  rfl

/-- The tokens of the field of field numbers give the numbers. -/
theorem readField_idsTokens {ids : List Int32} (hids : ids ≠ []) (rest : List Token)
    (m : Metadata) :
    readField none m (idsTokens ids ++ rest) =
      .ok (.field { m with fieldIds := m.fieldIds ++ ids }, skipSeparator rest) := by
  have hread := readIntegers_listTokens none hids rest
  have htokens : idsTokens ids ++ rest =
      .word "field_id".toList :: .mark ':' :: .mark '[' :: (listTokens ids ++ .mark ']' :: rest) := by
    simp [idsTokens]
  rw [htokens, readField]
  simp only [readName, String.ofList_toList, readColon, bind, Except.bind, hread]
  rfl

/-- No more tokens leave the metadata as it is. -/
theorem readFields_nil (m : Metadata) : readFields none none m [] = .ok m := by
  rw [readFields]
  rfl

/-- A field is read before the fields after it. -/
theorem readFields_of_readField {m m' : Metadata} {tokens rest : List Token}
    (h : readField none m tokens = .ok (.field m', rest)) (hlt : rest.length < tokens.length) :
    readFields none none m tokens = readFields none none m' rest := by
  cases tokens with
  | nil => simp at hlt
  | cons t tokens =>
    have hmore : atEnd none none (t :: tokens) = .ok false := rfl
    rw [readFields, hmore]
    simp only [h, hlt, if_true]

/-- The tokens of metadata are read as it. -/
theorem readFields_tokens (m : Metadata) : readFields none none empty m.tokens = .ok m := by
  obtain ⟨className, ids⟩ := m
  unfold tokens
  by_cases hids : ids = []
  · subst hids
    cases className with
    | none => exact readFields_nil empty
    | some name =>
      have hname := readField_nameTokens name [] (m := empty) rfl rfl
      simp only [if_true, List.append_nil, List.intercalate_singleton] at hname ⊢
      rw [readFields_of_readField hname (by simp [nameTokens, skipSeparator])]
      exact readFields_nil _
  · cases className with
    | none =>
      have hlist := readField_idsTokens hids [] empty
      simp only [hids, if_false, List.nil_append, List.append_nil,
        List.intercalate_singleton] at hlist ⊢
      rw [readFields_of_readField hlist (by simp [idsTokens, skipSeparator])]
      exact readFields_nil _
    | some name =>
      -- The comma ends the string, which would go on with a string after it.
      have hname := readField_nameTokens name (.mark ',' :: idsTokens ids) (m := empty) rfl rfl
      have hlist := readField_idsTokens hids [] { empty with className := some name }
      simp only [hids, if_false, List.singleton_append, List.append_nil,
        List.intercalate_cons_cons, List.intercalate_singleton, List.append_assoc] at hname hlist ⊢
      rw [readFields_of_readField hname (by simp [nameTokens, skipSeparator]; omega), skipSeparator,
        readFields_of_readField hlist (by simp [idsTokens, skipSeparator])]
      exact readFields_nil _

/-- Metadata is read back from its text form: from the text as such, and from its bytes, which are
taken for the text form before they could be taken for the binary form. -/
theorem parse_toText (m : Metadata) :
    ofText m.toText.toList = .ok m ∧ parse (Utf8.encode m.toText) = .ok m := by
  have htext : ofText m.toText.toList = .ok m := by
    rw [ofText, split_toText]
    exact readFields_tokens m
  refine ⟨htext, parse_of_text?_eq_some ?_⟩
  have hchars : Utf8.decodeFrom 0 (Utf8.encode m.toText) = .ok m.toText.toList :=
    Utf8.decodeFrom_flatMap_encodeChar 0 m.toText.toList
  simp only [text?, hchars, htext]
  rfl

end Metadata

end ColumnarRecords
