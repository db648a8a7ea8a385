import ColumnarRecords.Projection.Selection
import ColumnarRecords.Report
import ColumnarRecords.Settings.Environment
import ColumnarRecords.Source.File

/-!
# Settings of a reader

Which fields are read, and which part of a column file. There are three layers of settings: the
default ones, those of a file, and those of the environment. A setting that a layer leaves out is
taken from the layer below.
-/

namespace ColumnarRecords

/-- The settings of a reader. -/
structure Settings where
  /-- The directive that selects fields. -/
  requiredFields : String
  /-- The number of rows in a batch. -/
  batchSize : Nat
  /-- The first row group. -/
  startRowGroup : Nat
  /-- The number of row groups; zero stands for all that are left. -/
  totalRowGroups : Nat
deriving DecidableEq, Repr

namespace Settings

/-- Everything, in batches of 1024 rows. -/
def default : Settings := ⟨"", 1024, 0, 0⟩

/-- The default settings with their paths. -/
def defaultEntries : List (String × Setting) :=
  [("reader.required_fields", .text default.requiredFields),
    ("reader.batch_size", .int default.batchSize),
    ("reader.start_row_group", .int default.startRowGroup),
    ("reader.total_row_groups", .int default.totalRowGroups)]

/-- The layers laid over each other: entries of a file, and an environment. -/
def layered (file : List (String × Setting)) (env : Environment) : Setting :=
  ((defaultEntries ++ file).foldl (fun s e => Setting.assign e.1 e.2 s)
    (.table [])).withEnvironment env

/-- What a reading of a setting gives, or something else if there is no such setting. -/
def readOr {α : Type} (read? : Setting → Option α) (other : α) : Option Setting → Option α
  | none => some other
  | some s => read? s

/-- The settings that a part of each name or position gives. -/
def ofParts? (part : String → Nat → Option Setting) : Option Settings := do
  let requiredFields ← readOr Setting.text? default.requiredFields (part "required_fields" 0)
  let batchSize ← readOr Setting.count? default.batchSize (part "batch_size" 1)
  let startRowGroup ← readOr Setting.count? default.startRowGroup (part "start_row_group" 2)
  let totalRowGroups ← readOr Setting.count? default.totalRowGroups (part "total_row_groups" 3)
  return ⟨requiredFields, batchSize, startRowGroup, totalRowGroups⟩

/-- The settings that a table gives by name or a list by position. -/
def ofReader? : Setting → Option Settings
  | .table entries => ofParts? fun name _ => (Setting.table entries).find? name
  | .list items => ofParts? fun _ position => items[position]?
  | _ => none

/-- The settings of the reader among all settings. -/
def ofSetting? (s : Setting) : Option Settings :=
  readOr ofReader? default (s.find? "reader")

/-- Why settings cannot be used. -/
inductive Fault where
  /-- There is no file at the path. -/
  | fileNotFound (path : String)
  /-- The file is not a settings file. -/
  | malformed
  /-- A setting is not of the right type. -/
  | illTyped
  /-- There is no row in a batch. -/
  | emptyBatch
  /-- The directive holds something else than digits, commas and blanks. -/
  | notIndices (directive : String)
deriving DecidableEq, Repr

/-- The wording of a fault. -/
def Fault.message : Fault → String
  | .fileNotFound path => "Configuration file not found: " ++ path
  | .malformed => "Failed to build configuration"
  | .illTyped => "Failed to deserialize configuration"
  | .emptyBatch => "reader batch_size must be greater than 0"
  | .notIndices directive =>
    "reader required_fields must be comma-separated field indices, got " ++ Text.quoted directive

/-- The character may stand in a directive of indices. -/
def isDirectivePart (c : Char) : Bool :=
  ('0' ≤ c && c ≤ '9') || c = ',' || Text.isBlank c

/-- The settings make sense. -/
def check (s : Settings) : Except Fault Unit :=
  if s.batchSize = 0 then .error .emptyBatch
  else if s.requiredFields.toList.all isDirectivePart then .ok ()
  else .error (.notIndices s.requiredFields)

/-- The selection that the directive writes. -/
def selection (s : Settings) : Except Report Selection :=
  match Selection.parse s.requiredFields with
  | .ok selection => .ok selection
  | .error e =>
    .error (.within ("Invalid required_fields directive " ++ Text.quoted s.requiredFields)
      (.ofError e))

/-- The part of a file that is read. -/
def readOptions (s : Settings) : ReadOptions :=
  ⟨s.startRowGroup, s.totalRowGroups, s.batchSize⟩

end Settings

end ColumnarRecords
