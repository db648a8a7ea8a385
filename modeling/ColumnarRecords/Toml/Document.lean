import ColumnarRecords.Toml.Scalar
import ColumnarRecords.Toml.Token
import ColumnarRecords.Toml.Tree

/-!
# Settings files

The statements of a settings file, each on lines of its own: headers, and keys with their values.
`settings?` gives the settings that they build, or nothing if some part of the text is malformed or
says something twice.
-/

namespace ColumnarRecords.Toml

/-- The tokens after the blanks in front of them. -/
def skipBlanks (ts : List Token) : List Token := ts.dropWhile Token.isBlank

/-- The tokens after the blanks and line ends in front of them. -/
def skipGaps (ts : List Token) : List Token := ts.dropWhile Token.isGap

/-- Blanks are dropped from the start. -/
theorem skipBlanks_length_le (ts : List Token) : (skipBlanks ts).length ≤ ts.length :=
  (List.dropWhile_sublist _).length_le

/-- The names of a key, with points between them, and the tokens after it. -/
def key? (ts : List Token) : Option (List String × List Token) :=
  match _h : skipBlanks ts with
  | [] => none
  | t :: rest =>
    match t.keyPart? with
    | none => none
    | some name =>
      match _h' : skipBlanks rest with
      | .mark '.' :: after => (key? after).map fun r => (name :: r.1, r.2)
      | after => some ([name], after)
termination_by ts.length
decreasing_by
  have h₁ := skipBlanks_length_le ts
  have h₂ := skipBlanks_length_le rest
  rw [_h] at h₁
  rw [_h'] at h₂
  simp only [List.length_cons] at h₁ h₂
  omega

/-- The characters of the words and points at the start of the tokens, and the tokens after them. -/
def wordRun : List Token → List Char × List Token
  | .word content :: rest => (content ++ (wordRun rest).1, (wordRun rest).2)
  | .mark c :: rest =>
    if c = '.' then (c :: (wordRun rest).1, (wordRun rest).2) else ([], .mark c :: rest)
  | ts => ([], ts)

/-- The characters of a plain value, and the tokens after it. One space may stand between a date and
a time. -/
def scalarRun (ts : List Token) : List Char × List Token :=
  let (content, rest) := wordRun ts
  match rest with
  | .blank [' '] :: .word time :: rest =>
    if (Moment.date? content).any (·.2 == []) then
      let (more, rest) := wordRun (.word time :: rest)
      (content ++ ' ' :: more, rest)
    else (content, .blank [' '] :: .word time :: rest)
  | rest => (content, rest)

/-- The items between brackets of which the first has been read, with commas between them and
possibly after the last, and the tokens after the closing bracket. An item takes at least one
token. -/
def items? {α : Type} (item? : List Token → Option (α × List Token)) (close : Char)
    (ts : List Token) : Option (List α × List Token) :=
  match skipGaps ts with
  | [] => none
  | t :: rest =>
    if t = .mark close then some ([], rest)
    else
      match item? (t :: rest) with
      | none => none
      | some (item, rest) =>
        match skipGaps rest with
        | .mark c :: rest =>
          if c = close then some ([item], rest)
          else if c = ',' ∧ rest.length < ts.length then
            (items? item? close rest).map fun r => (item :: r.1, r.2)
          else none
        | _ => none
termination_by ts.length

/-- A key, an equals sign and a value, and the tokens after them. -/
def keyValue? (value? : List Token → Option (Setting × List Token)) (ts : List Token) :
    Option ((List String × Setting) × List Token) :=
  match key? ts with
  | some (names, .mark '=' :: rest) =>
    (value? (skipBlanks rest)).map fun r => ((names, r.1), r.2)
  | _ => none

/-- The number of brackets that may stand around a value. -/
def maxNesting : Nat := 80

/-- The value at the start of the tokens, with at most so many brackets inside each other, and the
tokens after it. -/
def value? : Nat → List Token → Option (Setting × List Token)
  | _, [] => none
  | depth, t :: rest =>
    match t with
    | .string content | .block content => some (.text content, rest)
    | .word _ =>
      let (content, rest) := scalarRun (t :: rest)
      (scalar? content).map fun s => (s, rest)
    | .mark '[' =>
      match depth with
      | 0 => none
      | depth + 1 => (items? (value? depth) ']' rest).map fun r => (.list r.1, r.2)
    | .mark '\x7b' =>
      match depth with
      | 0 => none
      | depth + 1 =>
        match items? (keyValue? (value? depth)) '\x7d' rest with
        | none => none
        | some (entries, rest) =>
          (entries.foldlM (fun table e => Node.set? e.2 e.1 table) []).map fun table =>
            (.table (Node.entriesToSettings table), rest)
    | _ => none

/-- A statement. -/
inductive Statement where
  /-- A header that opens a table. -/
  | table (names : List String)
  /-- A header that appends a table. -/
  | element (names : List String)
  /-- A key with its value. -/
  | entry (names : List String) (s : Setting)

/-- The statement at the start of the tokens, and the tokens after it. -/
def statement? : List Token → Option (Statement × List Token)
  | .mark '[' :: .mark '[' :: rest =>
    match key? rest with
    | some (names, .mark ']' :: .mark ']' :: rest) => some (.element names, rest)
    | _ => none
  | .mark '[' :: rest =>
    match key? rest with
    | some (names, .mark ']' :: rest) => some (.table names, rest)
    | _ => none
  | ts => (keyValue? (value? maxNesting) ts).map fun r => (.entry r.1.1 r.1.2, r.2)

/-- The statements of a file, each ended by the end of a line or of the file. -/
def statements? (ts : List Token) : Option (List Statement) :=
  match _h : skipGaps ts with
  | [] => some []
  | t :: rest =>
    match statement? (t :: rest) with
    | none => none
    | some (s, rest) =>
      match skipBlanks rest with
      | [] => some [s]
      | .newline :: rest =>
        if rest.length < ts.length then (statements? rest).map (s :: ·) else none
      | _ => none
termination_by ts.length

/-- The table in which keys are set, by the names of the last header, and all entries. -/
abbrev Progress := List String × List (String × Node)

/-- Carries out a statement. -/
def Statement.run? : Statement → Progress → Option Progress
  | .table names, (_, entries) =>
    match names.getLast? with
    | none => none
    | some name => (Node.descend? (Node.open? name) names.dropLast entries).map (names, ·)
  | .element names, (_, entries) =>
    match names.getLast? with
    | none => none
    | some name => (Node.descend? (Node.append? name) names.dropLast entries).map (names, ·)
  | .entry names s, (current, entries) =>
    (Node.descend? (Node.set? s names) current entries).map (current, ·)

/-- The settings that a file gives, by their names. -/
def settings? (text : List Char) : Option (List (String × Setting)) := do
  let text ← Token.lineEnds? text
  let tokens ← Token.split? text
  let statements ← statements? tokens
  let (_, entries) ← statements.foldlM (fun progress s => s.run? progress) ([], [])
  return Node.entriesToSettings entries

end ColumnarRecords.Toml
