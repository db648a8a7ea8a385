import ColumnarRecords.CommandLine.Run

/-!
# The command

Reads the files that the command line names, runs the command on their bytes and prints what it
leaves behind. How column files are laid out in bytes is not part of this library.
-/

open ColumnarRecords CommandLine

/-- How the command is called. -/
def usageText : String :=
  "Usage: colproto --file <FILE> --descriptor-set <DESCRIPTOR_SET> --message <MESSAGE> [OPTIONS]\n"

/-- The bytes of the file at a path, if there is one. -/
def readBytes? (path : String) : IO (Option (List UInt8)) := do
  try
    return some (← IO.FS.readBinFile path).toList
  catch _ => return none

/-- The file at a path, if there is one. -/
def readFile? (path : String) : IO (Option (String × StoredFile)) := do
  return (← readBytes? path).map fun content => (path, .bytes content)

/-- The usual names of the variables that give settings. -/
def variableNames : List String :=
  ["COLPROTO_READER__REQUIRED_FIELDS", "COLPROTO_READER__BATCH_SIZE",
    "COLPROTO_READER__START_ROW_GROUP", "COLPROTO_READER__TOTAL_ROW_GROUPS"]

/-- The variable of a name, if it is set. -/
def readVariable? (name : String) : IO (Option (String × String)) := do
  return (← IO.getEnv name).map (name, ·)

/-- The variables of the process. A setting may be given by names that differ in case, and by more
than the usual ones, so all variables are read; only where the system does not show them are those
of the usual names asked for one by one. -/
def readEnvironment : IO Environment := do
  match ← readBytes? "/proc/self/environ" with
  | some bytes => return .ofBytes bytes
  | none => variableNames.filterMapM readVariable?

def main (words : List String) : IO UInt32 := do
  let paths :=
    match Arguments.read? words with
    | some a => a.file :: a.descriptorSet :: a.config.toList
    | none => []
  let files ← paths.filterMapM readFile?
  let env ← readEnvironment
  let outcome := run words ⟨files⟩ env
  IO.print outcome.output
  IO.eprint (match outcome with
    | .usage => usageText
    | _ => outcome.errors)
  return UInt32.ofNat outcome.code
