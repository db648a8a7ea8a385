import ColumnarRecords.Text.Escape
import ColumnarRecords.Text.Name

/-!
# Tokens of a settings file

A settings file consists of words, quoted strings and marks, with blanks, comments and line ends
between them. What a word means depends on its place, so it is kept as it stands. A string between
three quotes may run over lines; between double quotes a backslash begins an escape, between
single quotes it is a character like any other.
-/

namespace ColumnarRecords.Toml

/-- A token. -/
inductive Token where
  /-- Characters that belong to no other token. -/
  | word (content : List Char)
  /-- A string on one line. -/
  | string (content : String)
  /-- A string between three quotes. -/
  | block (content : String)
  /-- One of the marks `.`, `=`, `,` and the brackets and braces. -/
  | mark (c : Char)
  /-- Spaces and tabs, or a comment. -/
  | blank (content : List Char)
  /-- The end of a line. -/
  | newline
deriving DecidableEq, Repr

namespace Token

/-- The text with each line ended by a line feed alone. A carriage return stands nowhere else. -/
def lineEnds? : List Char → Option (List Char)
  | [] => some []
  | '\r' :: '\n' :: rest => (lineEnds? rest).map ('\n' :: ·)
  | c :: rest => if c = '\r' then none else (lineEnds? rest).map (c :: ·)

/-- The character separates words on a line. -/
def isSpace (c : Char) : Bool := c = ' ' || c = '\t'

/-- The character may stand in comments and strings: a tab, or none of the controls of ASCII. -/
def isPlain (c : Char) : Bool :=
  c = '\t' || (0x20 ≤ c.toNat && c.toNat ≠ 0x7F)

/-- The character is a token by itself. -/
def isMark (c : Char) : Bool :=
  ['.', '=', ',', '[', ']', '\x7b', '\x7d'].contains c

/-- The character continues a word. -/
def isWordPart (c : Char) : Bool :=
  !(isSpace c || isMark c || c = '#' || c = '\n')

/-- The character of an escape of one letter. -/
def letter? : Char → Option Char
  | 'b' => some '\x08'
  | 't' => some '\t'
  | 'n' => some '\n'
  | 'f' => some '\x0c'
  | 'r' => some '\r'
  | 'e' => some '\x1b'
  | '"' => some '"'
  | '\\' => some '\\'
  | _ => none

/-- The character of the escape whose backslash has been read, and the text after it. -/
def escape? : List Char → Option (Char × List Char)
  | [] => none
  | c :: rest =>
    match letter? c with
    | some d => some (d, rest)
    | none =>
      if c = 'x' then Text.Escape.codePoint? 2 rest
      else if c = 'u' then Text.Escape.codePoint? 4 rest
      else if c = 'U' then Text.Escape.codePoint? 8 rest
      else none

/-- An escape leaves less text than there was. -/
theorem escape?_length_lt {s rest : List Char} {c : Char} (h : escape? s = some (c, rest)) :
    rest.length < s.length := by
  unfold escape? at h
  have := @Text.Escape.codePoint?_length_le
  grind

/-- The content of a string on one line up to its quote, and the text after that. -/
def readLine? (quote : Char) (s : List Char) : Option (List Char × List Char) :=
  match s with
  | [] => none
  | c :: rest =>
    if c = quote then some ([], rest)
    else if c = '\\' ∧ quote = '"' then
      match _h : escape? rest with
      | none => none
      | some (d, after) => (readLine? quote after).map fun r => (d :: r.1, r.2)
    else if isPlain c then (readLine? quote rest).map fun r => (c :: r.1, r.2)
    else none
termination_by s.length
decreasing_by
  · have := escape?_length_lt _h
    simp only [List.length_cons]
    omega
  · simp

/-- The text after a string on one line is shorter than what it was read from. -/
theorem readLine?_length_lt {quote : Char} {s content rest : List Char}
    (h : readLine? quote s = some (content, rest)) : rest.length < s.length := by
  fun_induction readLine? quote s generalizing content with
  | case1 => simp at h
  | case2 r => simp_all
  | case3 => simp at h
  | case4 c r _ _ d after he ih =>
    obtain ⟨⟨text, after⟩, hr, ht⟩ := Option.map_eq_some_iff.1 h
    obtain ⟨rfl, rfl⟩ := Prod.mk.inj ht
    have := escape?_length_lt he
    have := ih hr
    grind
  | case5 c r _ _ _ ih =>
    obtain ⟨⟨text, after⟩, hr, ht⟩ := Option.map_eq_some_iff.1 h
    obtain ⟨rfl, rfl⟩ := Prod.mk.inj ht
    have := ih hr
    grind
  | case6 => simp at h

/-- The text after the blanks and line ends that a backslash at the end of a line joins to it. -/
def continued? (s : List Char) : Option (List Char) :=
  if (s.dropWhile isSpace).head? = some '\n' then
    some (s.dropWhile fun c => isSpace c || c = '\n')
  else none

/-- The text after joined lines is the end of what there was. -/
theorem continued?_length_le {s rest : List Char} (h : continued? s = some rest) :
    rest.length ≤ s.length := by
  simp only [continued?, Option.ite_none_right_eq_some, Option.some.injEq] at h
  rw [← h.2]
  exact (List.dropWhile_sublist _).length_le

/-- The content of a string over lines up to its three quotes, and the text after those. One or two
quotes before them belong to the content. -/
def readBlock? (quote : Char) (s : List Char) : Option (List Char × List Char) :=
  match s with
  | [] => none
  | c :: rest =>
    let quotes := min 5 ((c :: rest).takeWhile (· = quote)).length
    if 3 ≤ quotes then some (List.replicate (quotes - 3) quote, (c :: rest).drop quotes)
    else if c = '\\' ∧ quote = '"' then
      match _h : continued? rest with
      | some after => readBlock? quote after
      | none =>
        match _h : escape? rest with
        | none => none
        | some (d, after) => (readBlock? quote after).map fun r => (d :: r.1, r.2)
    else if isPlain c ∨ c = '\n' then (readBlock? quote rest).map fun r => (c :: r.1, r.2)
    else none
termination_by s.length
decreasing_by
  · have := continued?_length_le _h
    simp only [List.length_cons]
    omega
  · have := escape?_length_lt _h
    simp only [List.length_cons]
    omega
  · simp

/-- The text after a string over lines is shorter than what it was read from. -/
theorem readBlock?_length_lt {quote : Char} {s content rest : List Char}
    (h : readBlock? quote s = some (content, rest)) : rest.length < s.length := by
  fun_induction readBlock? quote s generalizing content with
  | case1 => simp at h
  | case2 => grind
  | case3 =>
    rename_i hc ih
    have := continued?_length_le hc
    have := ih h
    grind
  | case4 => simp at h
  | case5 =>
    rename_i he ih
    obtain ⟨⟨text, after⟩, hr, ht⟩ := Option.map_eq_some_iff.1 h
    obtain ⟨rfl, rfl⟩ := Prod.mk.inj ht
    have := escape?_length_lt he
    have := ih hr
    grind
  | case6 =>
    rename_i ih
    obtain ⟨⟨text, after⟩, hr, ht⟩ := Option.map_eq_some_iff.1 h
    obtain ⟨rfl, rfl⟩ := Prod.mk.inj ht
    have := ih hr
    grind
  | case7 => simp at h

/-- The string whose first quote has been read, and the text after it. A line end at the very start
of a string over lines does not belong to it. -/
def readString? (quote : Char) (rest : List Char) : Option (Token × List Char) :=
  if rest.take 2 = [quote, quote] then
    let body := rest.drop 2
    let body := if body.head? = some '\n' then body.drop 1 else body
    (readBlock? quote body).map fun r => (block (String.ofList r.1), r.2)
  else (readLine? quote rest).map fun r => (string (String.ofList r.1), r.2)

/-- The token that begins with a character, and the text after it. -/
def read? (c : Char) (rest : List Char) : Option (Token × List Char) :=
  if c = '\n' then some (newline, rest)
  else if isMark c then some (mark c, rest)
  else if isSpace c then some (blank (c :: rest.takeWhile isSpace), rest.dropWhile isSpace)
  else if c = '#' then some (blank (c :: rest.takeWhile isPlain), rest.dropWhile isPlain)
  else if c = '"' ∨ c = '\'' then readString? c rest
  else some (word (c :: rest.takeWhile isWordPart), rest.dropWhile isWordPart)

/-- The text after a string is shorter than what follows its first quote. -/
theorem readString?_length_lt {quote : Char} {s rest : List Char} {t : Token}
    (h : readString? quote s = some (t, rest)) : rest.length < s.length := by
  unfold readString? at h
  split at h
  · obtain ⟨⟨content, after⟩, hr, he⟩ := Option.map_eq_some_iff.1 h
    have := readBlock?_length_lt hr
    grind
  · obtain ⟨⟨content, after⟩, hr, he⟩ := Option.map_eq_some_iff.1 h
    have := readLine?_length_lt hr
    grind

/-- A token takes no less than its first character. -/
theorem read?_length_le {c : Char} {s rest : List Char} {t : Token}
    (h : read? c s = some (t, rest)) : rest.length ≤ s.length := by
  have drop := fun p : Char → Bool => (List.dropWhile_sublist (l := s) p).length_le
  unfold read? at h
  have := fun q => @readString?_length_lt q s rest t
  grind

/-- The tokens of a text. -/
def split? (s : List Char) : Option (List Token) :=
  match s with
  | [] => some []
  | c :: rest =>
    match _h : read? c rest with
    | none => none
    | some (token, after) => (split? after).map (token :: ·)
termination_by s.length
decreasing_by
  have := read?_length_le _h
  simp only [List.length_cons]
  omega

/-- The name that a token is as a part of a key: a plain name, or any string on one line. -/
def keyPart? : Token → Option String
  | word content => if content.all Text.isNamePart then some (String.ofList content) else none
  | string content => some content
  | _ => none

/-- The token is a blank. -/
def isBlank : Token → Bool
  | blank _ => true
  | _ => false

/-- The token stands between other tokens without a meaning, also over lines. -/
def isGap : Token → Bool
  | blank _ | newline => true
  | _ => false

end Token

end ColumnarRecords.Toml
