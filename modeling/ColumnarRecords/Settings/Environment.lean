import ColumnarRecords.Floating.Numeral
import ColumnarRecords.Settings.Path
import ColumnarRecords.Text.Utf8

/-!
# Settings from the environment

A variable whose name begins with `COLPROTO_`, in any case, gives a setting. Two underscores stand
for the point between the names of a path. The value is a truth value, a whole number or a
floating point number if it reads as one, and otherwise a text.
-/

namespace ColumnarRecords

/-- Variables, each a name with a value. -/
abbrev Environment := List (String × String)

/-- The variable that an entry of an environment is: a name, an equals sign and a value, all of them
text. The name is not empty, so a sign at the start belongs to it. -/
def Environment.entry? : List UInt8 → Option (String × String)
  | [] => none
  | first :: rest =>
    match rest.dropWhile (· ≠ 0x3D) with
    | [] => none
    | _ :: value =>
      match Text.Utf8.decode (first :: rest.takeWhile (· ≠ 0x3D)), Text.Utf8.decode value with
      | .ok name, .ok text => some (name, text)
      | _, _ => none

/-- The environment that a process is given as bytes, with a zero byte after each entry. What is no
variable is left out. -/
def Environment.ofBytes (bytes : List UInt8) : Environment := (bytes.splitOn 0).filterMap entry?

/-- Names are kept as they are spelled, and a value may hold further equals signs. -/
example : Environment.ofBytes [97, 61, 61, 98, 0, 61, 99, 61, 0, 100, 0] =
    [("a", "=b"), ("=c", "")] := by
  cbv

namespace Setting

/-- The beginning of the names of variables that give settings. -/
def variableStart : List Char := "colproto_".toList

/-- The text with a point in the place of each two underscores. -/
def pointed : List Char → List Char
  | '_' :: '_' :: rest => '.' :: pointed rest
  | c :: rest => c :: pointed rest
  | [] => []

/-- The path of the setting that a variable of a name gives. -/
def variablePath? (name : String) : Option String :=
  let lower := name.toList.map Char.toLower
  if lower.take variableStart.length = variableStart then
    some (String.ofList (pointed (lower.drop variableStart.length)))
  else none

/-- The setting that the value of a variable is. -/
def ofVariable (value : String) : Setting :=
  let lower := String.ofList (value.toList.map Char.toLower)
  if lower = "true" then .bool true
  else if lower = "false" then .bool false
  else
    match Text.Numeral.readInt 10 (2 ^ 63 - 1) value.toList with
    | .ok n => .int n
    | .error _ =>
      match Floating.readBits? .binary64 value.toList with
      | some bits => .float bits
      | none => .text value

/-- A setting with those of an environment laid over it, in the order of the variables. -/
def withEnvironment (env : Environment) (s : Setting) : Setting :=
  env.foldl (fun s v =>
    match variablePath? v.1 with
    | some path => assign path (ofVariable v.2) s
    | none => s) s

end Setting

end ColumnarRecords
