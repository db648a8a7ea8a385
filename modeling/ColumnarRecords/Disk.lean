import ColumnarRecords.Source.File

/-!
# Files by their paths

What is stored where. A path is a list of names with slashes between them; empty names and single
points do not count.
-/

namespace ColumnarRecords

/-- A stored file. -/
inductive StoredFile where
  /-- Bytes. -/
  | bytes (content : List UInt8)
  /-- A column file. -/
  | columns (file : ColumnFile)
deriving DecidableEq, Repr

/-- Files with their paths. -/
structure Disk where
  /-- The files. -/
  files : List (String × StoredFile)
deriving DecidableEq, Repr

namespace Disk

/-- The names of which a path consists. -/
def names (path : String) : List (List Char) :=
  (path.toList.splitOn '/').filter fun name => name != [] && name != ['.']

/-- The file at a path. -/
def find? (d : Disk) (path : String) : Option StoredFile :=
  (d.files.find? fun file => names file.1 == names path).map Prod.snd

/-- How the end of a column file is marked. -/
def endMark : List UInt8 := [0x50, 0x41, 0x52, 0x31]

/-- The number that bytes write, the least significant first. -/
def littleEndian (bytes : List UInt8) : Nat :=
  bytes.foldr (fun b n => n * 256 + b.toNat) 0

/-- Why bytes are not a column file: the end mark is missing, or it stands after a length for which
there are too few bytes. No other bytes are column files. -/
def fileFault (content : List UInt8) : FileFault :=
  let size := content.length
  if size < 8 then .tooSmall size 8
  else if content.drop (size - 4) = endMark then
    let needed := 8 + littleEndian ((content.drop (size - 8)).take 4)
    if size < needed then .tooSmall size needed else .corruptFooter
  else .corruptFooter

/-- How the system says that there is no file at a path. -/
def notFound : String := "No such file or directory (os error 2)"

/-- The column file at a path. -/
def columnFile (d : Disk) (path : String) : Except ReadError ColumnFile :=
  match d.find? path with
  | none => .error (.io notFound)
  | some (.bytes content) => .error (.file (fileFault content))
  | some (.columns file) => .ok file

end Disk

end ColumnarRecords
