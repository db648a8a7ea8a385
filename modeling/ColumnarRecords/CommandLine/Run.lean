import ColumnarRecords.CommandLine.Arguments
import ColumnarRecords.Json.Message
import ColumnarRecords.Reader
import ColumnarRecords.Settings.Load

/-!
# Runs of the command

The command prints the records of a column file as lines of JSON, or the plan by which it would
read them. It ends with the first error; what was printed before stands.
-/

namespace ColumnarRecords.CommandLine

/-- What a run leaves behind. -/
inductive Outcome where
  /-- The command line makes no sense. -/
  | usage
  /-- All went well; the output. -/
  | success (output : String)
  /-- The output before an error, and the error. -/
  | failure (output : String) (report : Report)
deriving DecidableEq, Repr

namespace Outcome

/-- The number that tells how the run ended. -/
def code : Outcome → Nat
  | usage => 2
  | success _ => 0
  | failure _ _ => 1

/-- What is printed. -/
def output : Outcome → String
  | usage => ""
  | success output | failure output _ => output

/-- What is said about an error. -/
def errors : Outcome → String
  | usage | success _ => ""
  | failure _ report => report.text

/-- The outcome with a text printed before. -/
def after (text : String) : Outcome → Outcome
  | usage => usage
  | success output => success (text ++ output)
  | failure output report => failure (text ++ output) report

end Outcome

/-- Prints the messages of records, the first of which has a number, up to the first error. -/
def printRecords (s : Schema) : Nat → List (Except ReadError Message) → Outcome
  | _, [] => .success ""
  | number, .error e :: _ =>
    .failure "" (.within s!"Failed to read record {number}" (.ofError e))
  | number, .ok m :: rest =>
    match Json.written (Json.ofMessage s.pool s.index m) with
    | (text, none) => (printRecords s (number + 1) rest).after (text ++ "\n")
    | (text, some fault) =>
      .failure text (.within "Failed to serialize record" (.ofMessage fault.message))

/-- The number of records that a run prints at most. -/
def Arguments.recordLimit (a : Arguments) : Nat := a.limit.getD Text.Numeral.maxWord

/-- A result, with the error reported below a wording. -/
def reportWithin {α : Type} (message : String) : Except ReadError α → Except Report α
  | .ok a => .ok a
  | .error e => .error (.within message (.ofError e))

/-- The settings of a run: those of the layers, with the directive of the command line in their
place. -/
def Arguments.settings (a : Arguments) (d : Disk) (env : Environment) :
    Except Report Settings :=
  match Settings.load d a.config env with
  | .error fault => .error (.ofMessage fault.message)
  | .ok s =>
    let s := { s with requiredFields := a.required.getD s.requiredFields }
    match s.check with
    | .ok () => .ok s
    | .error fault => .error (.within "Invalid configuration" (.ofMessage fault.message))

/-- The schema of the message type. The bytes of a column file describe no types. -/
def Arguments.schema (a : Arguments) (d : Disk) : Except Report Schema :=
  let failure := "Failed to load message type " ++ a.message
  match d.find? a.descriptorSet with
  | none =>
    .error (.within ("Failed to read descriptor set " ++ a.descriptorSet)
      (.ofMessage Disk.notFound))
  | some (.bytes content) => reportWithin failure (Schema.ofDescriptorSet content a.message)
  | some (.columns _) => reportWithin failure (Schema.ofDescriptorSet Disk.endMark a.message)

/-- A reader of the column file. The selected fields are looked up before the file is opened. -/
def Arguments.reader (a : Arguments) (d : Disk) (options : ReadOptions) (s : Schema)
    (selection : Selection) : Except ReadError (Reader FileSource) :=
  match selection.resolve s with
  | .error e => .error e
  | .ok numbers =>
    match d.columnFile a.file with
    | .error e => .error e
    | .ok file =>
      match FileSource.ofFile file options with
      | .error e => .error e
      | .ok source => Reader.openNumbers source s numbers

/-- A reader of the records that a command line asks for. -/
def Arguments.openReader (a : Arguments) (d : Disk) (env : Environment) :
    Except Report (Reader FileSource) := do
  let settings ← a.settings d env
  let schema ← a.schema d
  let selection ← settings.selection
  reportWithin ("Failed to open column file " ++ a.file)
    (a.reader d settings.readOptions schema selection)

/-- Runs the command. -/
def Arguments.run (a : Arguments) (d : Disk) (env : Environment) : Outcome :=
  match a.openReader d env with
  | .error report => .failure "" report
  | .ok reader =>
    if a.plan then .success reader.plan.text
    else printRecords reader.plan.schema 1 (reader.take a.recordLimit).1

/-- Runs the command with the words of a command line. -/
def run (words : List String) (d : Disk) (env : Environment) : Outcome :=
  match Arguments.read? words with
  | none => .usage
  | some a => a.run d env

end ColumnarRecords.CommandLine
