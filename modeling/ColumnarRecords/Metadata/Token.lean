import ColumnarRecords.Floating.Layout
import ColumnarRecords.Floating.Numeral
import ColumnarRecords.Text.Escape

/-!
# Tokens of the text form

A text is a sequence of words, numbers, quoted strings and marks, with blanks and comments between
them. The longest token that can be read is taken each time. `Token.split` gives the tokens up to
the end, or up to the first place where there is none, and what is wrong there.
-/

namespace ColumnarRecords.Metadata

/-- A token. -/
inductive Token where
  /-- A letter or underscore and what follows of letters, digits and underscores. -/
  | word (name : List Char)
  /-- A whole number, without the mark of its base. -/
  | integer (digits : List Char) (base : Nat)
  /-- A number with a point, an exponent or the mark of a floating point number. -/
  | number (value : Floating.Number)
  /-- The bytes of a quoted string. -/
  | string (content : List UInt8)
  /-- A mark. -/
  | mark (c : Char)
deriving DecidableEq, Repr

namespace Token

/-- Why there is no token. -/
inductive Fault where
  /-- No token begins with the character. -/
  | invalidToken
  /-- A whole number runs into a word. -/
  | missingSpace
  /-- A string holds a line end or a zero byte. -/
  | invalidCharacter
  /-- A backslash begins no escape. -/
  | invalidEscape
  /-- A string has no end. -/
  | unterminated
deriving DecidableEq, Repr

/-- The wording of a fault. -/
def Fault.message : Fault → String
  | .invalidToken => "invalid token"
  | .missingSpace => "whitespace is required between an integer literal and an identifier"
  | .invalidCharacter => "invalid string character"
  | .invalidEscape => "invalid string escape"
  | .unterminated => "expected string terminator, but reached end of input"

/-- How a number is shown: a whole one exactly, any other in its fewest digits. -/
def numberText : Floating.Number → String
  | .finite negative significand exponent =>
    if significand % 2 ^ (-exponent).toNat = 0 then
      (if negative then "-" else "") ++
        s!"{significand / 2 ^ (-exponent).toNat * 2 ^ exponent.toNat}.0"
    else Floating.Layout.plain.text .binary64 (.finite negative significand exponent)
  | n => Floating.Layout.plain.text .binary64 n

/-- How a token is shown. -/
def text : Token → String
  | word name => String.ofList name
  | integer digits _ => String.ofList digits
  | number value => numberText value
  | string content => String.ofList (Text.Escape.quotedBytes content)
  | mark c => String.singleton c

/-- The character separates tokens. -/
def isSpace (c : Char) : Bool :=
  c = ' ' || (9 ≤ c.toNat && c.toNat ≤ 13)

/-- The character can begin a word. -/
def isLetter (c : Char) : Bool :=
  ('A' ≤ c && c ≤ 'Z') || ('a' ≤ c && c ≤ 'z') || c = '_'

/-- The character can continue a word. -/
def isWordPart (c : Char) : Bool :=
  isLetter c || Floating.isDigit c

/-- The character is a token by itself. -/
def isMark (c : Char) : Bool :=
  ['.', '-', '\x7b', '\x7d', '[', ']', '<', '>', ',', ':', ';', '/'].contains c

/-- The bytes of a string up to its closing quote, and the text after that. -/
def readString (quote : Char) : List Char → Except Fault (List UInt8 × List Char)
  | [] => .error .unterminated
  | '\\' :: rest =>
    match _h : Text.Escape.read? rest with
    | none => .error .invalidEscape
    | some (bytes, rest) =>
      match readString quote rest with
      | .error f => .error f
      | .ok (content, after) => .ok (bytes ++ content, after)
  | c :: rest =>
    if c = quote then .ok ([], rest)
    else if c = '\n' ∨ c = '\x00' then .error .invalidCharacter
    else
      match readString quote rest with
      | .error f => .error f
      | .ok (content, after) => .ok (Text.Utf8.encodeChar c ++ content, after)
termination_by s => s.length
decreasing_by
  · have := Text.Escape.read?_length_lt _h
    simp only [List.length_cons]
    omega
  · simp

/-- The text after a string is shorter than what follows its first quote. -/
theorem readString_length_lt {quote : Char} {s rest : List Char} {content : List UInt8}
    (h : readString quote s = .ok (content, rest)) : rest.length < s.length := by
  fun_induction readString quote s generalizing content with
  | case1 => simp at h
  | case2 => simp at h
  | case3 => simp at h
  | case4 =>
    rename_i he _ after hr ih
    obtain ⟨rfl, rfl⟩ := Prod.mk.inj (Except.ok.inj h)
    have := Text.Escape.read?_length_lt he
    have := ih hr
    simp only [List.length_cons]
    omega
  | case5 => simp_all
  | case6 => simp at h
  | case7 => simp at h
  | case8 =>
    rename_i after hr ih
    obtain ⟨rfl, rfl⟩ := Prod.mk.inj (Except.ok.inj h)
    have := ih hr
    simp only [List.length_cons]
    omega

/-- The exponent at the start of a text, if there is one with a digit. -/
def exponentPart : List Char → List Char
  | [] => []
  | e :: rest =>
    let sign := (rest.take 1).filter fun c => c = '+' || c = '-'
    let digits := (rest.drop sign.length).takeWhile Floating.isDigit
    if (e = 'e' ∨ e = 'E') ∧ digits ≠ [] then e :: sign ++ digits else []

/-- The character marks a floating point number. -/
def isFloatMark (c : Char) : Bool :=
  c = 'f' || c = 'F'

/-- The numeral of a floating point number at the start of a text, without its mark. -/
def floatPart? (s : List Char) : Option (List Char) :=
  let whole := s.takeWhile Floating.isDigit
  match s.dropWhile Floating.isDigit with
  | '.' :: rest =>
    let fraction := rest.takeWhile Floating.isDigit
    if whole = [] ∧ fraction = [] then none
    else some (whole ++ '.' :: fraction ++ exponentPart (rest.dropWhile Floating.isDigit))
  | rest =>
    let exponent := exponentPart rest
    if whole = [] then none
    else if exponent ≠ [] then some (whole ++ exponent)
    else if rest.head?.any isFloatMark ∧ (whole = ['0'] ∨ whole.head? ≠ some '0') then some whole
    else none

/-- The number that a numeral writes. -/
def floatValue (numeral : List Char) : Floating.Number :=
  Floating.ofBits .binary64 ((Floating.readMagnitude? .binary64 numeral).getD 0)

/-- The whole number at the start of a text that begins with a digit: its digits, its base, and the
text after it. -/
def integerPart (s : List Char) : List Char × Nat × List Char :=
  match s with
  | '0' :: rest =>
    let digits := (rest.drop 1).takeWhile (Text.Escape.isDigitIn 16)
    let octal := rest.takeWhile (Text.Escape.isDigitIn 8)
    if (rest.head? = some 'x' ∨ rest.head? = some 'X') ∧ digits ≠ [] then
      (digits, 16, rest.drop (digits.length + 1))
    else if octal ≠ [] then (octal, 8, rest.drop octal.length)
    else (['0'], 10, rest)
  | s => (s.takeWhile Floating.isDigit, 10, s.dropWhile Floating.isDigit)

/-- The number at the start of a text, and the text after it. -/
def readNumber (s : List Char) : Except Fault (Token × List Char) :=
  match floatPart? s with
  | some numeral =>
    let rest := s.drop numeral.length
    .ok (.number (floatValue numeral), if rest.head?.any isFloatMark then rest.drop 1 else rest)
  | none =>
    let (digits, base, rest) := integerPart s
    if rest.head?.any isLetter then .error .missingSpace else .ok (.integer digits base, rest)

/-- The numeral of a floating point number has a character. -/
theorem floatPart?_ne_nil {s numeral : List Char} (h : floatPart? s = some numeral) :
    numeral ≠ [] := by
  rintro rfl
  simp only [floatPart?] at h
  split at h
  · simp at h
  · split at h
    · simp at h
    · split at h
      · simp_all
      · simp_all

/-- A point before a digit begins the numeral of a floating point number. -/
theorem floatPart?_point_isSome {s : List Char} (h : s.head?.any Floating.isDigit) :
    (floatPart? ('.' :: s)).isSome := by
  cases s with
  | nil => simp at h
  | cons c r =>
    have hc : Floating.isDigit c = true := by simpa using h
    have hp : Floating.isDigit '.' = false := by decide
    simp [floatPart?, hp, hc]

/-- A whole number that begins with a digit leaves no more text than follows that digit. -/
theorem integerPart_length_le {c : Char} {s : List Char} (h : Floating.isDigit c) :
    (integerPart (c :: s)).2.2.length ≤ s.length := by
  have := (List.dropWhile_sublist (l := s) Floating.isDigit).length_le
  unfold integerPart
  split
  · grind
  · simpa [h] using this

/-- A number leaves no more text than follows its first character. -/
theorem readNumber_length_le {c : Char} {s rest : List Char} {t : Token}
    (hc : Floating.isDigit c ∨ (c = '.' ∧ s.head?.any Floating.isDigit))
    (h : readNumber (c :: s) = .ok (t, rest)) : rest.length ≤ s.length := by
  unfold readNumber at h
  split at h
  · rename_i numeral hn
    have := List.length_pos_iff.2 (floatPart?_ne_nil hn)
    grind
  · rename_i hn
    rcases hc with hc | ⟨rfl, hd⟩
    · have := integerPart_length_le (s := s) hc
      grind
    · have := floatPart?_point_isSome hd
      simp [hn] at this

/-- The token that begins with a character, and the text after it. -/
def read (c : Char) (rest : List Char) : Except Fault (Token × List Char) :=
  if isLetter c then .ok (.word (c :: rest.takeWhile isWordPart), rest.dropWhile isWordPart)
  else if Floating.isDigit c ∨ (c = '.' ∧ rest.head?.any Floating.isDigit) then
    readNumber (c :: rest)
  else if c = '"' ∨ c = '\'' then
    match readString c rest with
    | .error f => .error f
    | .ok (content, after) => .ok (.string content, after)
  else if isMark c then .ok (.mark c, rest)
  else .error .invalidToken

/-- A token takes no less than its first character. -/
theorem read_length_le {c : Char} {s rest : List Char} {t : Token}
    (h : read c s = .ok (t, rest)) : rest.length ≤ s.length := by
  unfold read at h
  split at h
  · have := (List.dropWhile_sublist (l := s) isWordPart).length_le
    grind
  · split at h
    · rename_i hc
      exact readNumber_length_le hc h
    · split at h
      · split at h
        · simp at h
        · rename_i hr
          have := readString_length_lt hr
          grind
      · grind

/-- The tokens of a text up to the first fault. -/
def split (s : List Char) : List Token × Option Fault :=
  match s with
  | [] => ([], none)
  | c :: rest =>
    if isSpace c then split rest
    else if c = '#' then split (rest.dropWhile (· != '\n'))
    else
      match _h : read c rest with
      | .error f => ([], some f)
      | .ok (token, after) => (token :: (split after).1, (split after).2)
termination_by s.length
decreasing_by
  · simp
  · have := (List.dropWhile_sublist (p := fun x : Char => x != '\n') (l := rest)).length_le
    simp only [List.length_cons]
    omega
  · have := read_length_le _h
    simp only [List.length_cons]
    omega

end Token

end ColumnarRecords.Metadata
