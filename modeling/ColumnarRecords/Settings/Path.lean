import ColumnarRecords.Settings.Setting
import ColumnarRecords.Text.Name

/-!
# Paths of settings

The text of a path: a name, then further names after points and positions in brackets, such as
`reader.batch_size` or `parts[-1].name`. Names consist of ASCII letters, digits, underscores and
hyphens. A text that is no path is the name of a setting all the same.
-/

namespace ColumnarRecords.Setting

open Text (isNamePart)

/-- The character may stand around a position. -/
def isPathBlank (c : Char) : Bool := c = ' ' || c = '\t'

/-- The position after an opening bracket, and the text after the closing one. -/
def readPosition? (s : List Char) : Option (Int × List Char) :=
  let s := s.dropWhile isPathBlank
  let sign := (s.take 1).filter (· = '-')
  let digits := (s.drop sign.length).takeWhile fun c => '0' ≤ c && c ≤ '9'
  match (s.drop (sign.length + digits.length)).dropWhile isPathBlank with
  | ']' :: rest =>
    if digits = [] then none
    else
      match Text.Numeral.readInt 10 (2 ^ 63 - 1) (sign ++ digits) with
      | .ok n => some (n, rest)
      | .error _ => none
  | _ => none

/-- The steps after the first name of a path. A step that takes no character would end the path. -/
def readSteps? (s : List Char) : Option (List Step) :=
  match s with
  | [] => some []
  | '.' :: rest =>
    let name := rest.takeWhile isNamePart
    if name = [] then none
    else (readSteps? (rest.drop name.length)).map (.key (String.ofList name) :: ·)
  | '[' :: rest =>
    match readPosition? rest with
    | none => none
    | some (n, after) =>
      if after.length ≤ rest.length then (readSteps? after).map (.index n :: ·) else none
  | _ => none
termination_by s.length
decreasing_by
  · simp only [List.length_drop, List.length_cons]
    omega
  · simp only [List.length_cons]
    omega

/-- The path that a text is, or the name if it is none. -/
def readPath (s : String) : List Step :=
  let name := s.toList.takeWhile isNamePart
  let steps? :=
    if name = [] then none
    else (readSteps? (s.toList.drop name.length)).map (.key (String.ofList name) :: ·)
  steps?.getD [.key s]

/-- A setting with another laid over the place that a text names. -/
def assign (path : String) (s below : Setting) : Setting :=
  below.update (merge s) (readPath path)

end ColumnarRecords.Setting
