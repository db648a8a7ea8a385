import ColumnarRecords.Disk
import ColumnarRecords.Settings.Basic
import ColumnarRecords.Toml.Document

/-!
# Loading settings

A settings file is recognised by the extension of its name.
-/

namespace ColumnarRecords.Settings

/-- The path is the one of a settings file: the last name ends in `.toml`, with something before
that. -/
def isFilePath (path : String) : Bool :=
  let name := ((Disk.names path).getLast?.getD []).reverse
  name.take 5 == ".toml".toList.reverse && 5 < name.length

/-- The text of a file. A mark of byte order at its start does not belong to it. -/
def fileText (content : List UInt8) : List Char :=
  match content with
  | 0xEF :: 0xBB :: 0xBF :: rest => Text.Utf8.decodeLossy rest
  | content => Text.Utf8.decodeLossy content

/-- The entries of a settings file. -/
def fileEntries (d : Disk) (path : String) : Except Fault (List (String × Setting)) :=
  match d.find? path with
  | none => .error (.fileNotFound path)
  | some (.columns _) => .error .malformed
  | some (.bytes content) =>
    if isFilePath path then
      match Toml.settings? (fileText content) with
      | some entries => .ok entries
      | none => .error .malformed
    else .error .malformed

/-- The settings that the entries of a file and an environment give. -/
def ofLayers (file : List (String × Setting)) (env : Environment) : Except Fault Settings :=
  match ofSetting? (layered file env) with
  | some s => .ok s
  | none => .error .illTyped

/-- The settings that a file, if one is given, and an environment give. -/
def load (d : Disk) (path : Option String) (env : Environment) : Except Fault Settings :=
  match path with
  | none => ofLayers [] env
  | some path =>
    match fileEntries d path with
    | .error e => .error e
    | .ok entries => ofLayers entries env

end ColumnarRecords.Settings
