import ColumnarRecords.Column.Fault
import ColumnarRecords.Descriptor.Fault
import ColumnarRecords.Metadata.Text
import ColumnarRecords.Text.Quoted

/-!
# Errors

Why a read cannot be planned, opened or carried on, with the category and the wording of each
cause, and the wordings of what lies behind it.
-/

namespace ColumnarRecords

/-- A coarse sorting of errors. -/
inductive Category where
  /-- What was asked for is wrong, whatever the file holds. -/
  | configuration
  /-- The file's metadata does not support the read. -/
  | metadata
  /-- The bytes of a record are malformed. -/
  | decoding
  /-- The file cannot be read. -/
  | io
  /-- An operation came at the wrong time. -/
  | usage
deriving DecidableEq, Repr

/-- Why bytes are not a column file. -/
inductive FileFault where
  /-- There are fewer bytes than the end of a file takes, or than it says that come before it. -/
  | tooSmall (size needed : Nat)
  /-- The last bytes do not mark a column file. -/
  | corruptFooter
deriving DecidableEq, Repr

/-- The wording of a fault. -/
def FileFault.message : FileFault → String
  | .tooSmall size needed => s!"EOF: Parquet file too small. Size is {size} but need {needed}"
  | .corruptFooter => "Parquet error: Invalid Parquet file. Corrupt footer"

/-- Why columns cannot be selected. -/
inductive SelectionFault where
  /-- There is no column at a position. -/
  | outOfRange (column columnCount : Nat)
  /-- The positions do not ascend. -/
  | notAscending (columns : List Nat)
deriving DecidableEq, Repr

/-- The wording of a fault. -/
def SelectionFault.message : SelectionFault → String
  | .outOfRange column columnCount =>
    s!"column {column} out of range ({columnCount} columns)"
  | .notAscending columns =>
    "columns must be strictly ascending: [" ++ ", ".intercalate (columns.map toString) ++ "]"

/-- Why an operation cannot be done now. -/
inductive StateFault where
  /-- A row has another number of columns than the source. -/
  | rowWidth (width columnCount : Nat)
  /-- Columns are selected after the first record was asked for. -/
  | alreadyStarted
deriving DecidableEq, Repr

/-- The wording of a fault. -/
def StateFault.message : StateFault → String
  | .rowWidth width columnCount => s!"row has {width} columns, source has {columnCount}"
  | .alreadyStarted => "columns must be selected before iteration begins"

/-- Why a read fails. -/
inductive ReadError where
  /-- The file is no column file. -/
  | file (fault : FileFault)
  /-- The file cannot be read, for a reason that the system gives. -/
  | io (reason : String)
  /-- A directive has an entry that is no index. -/
  | invalidDirective (directive entry : String) (fault : Text.Numeral.Fault)
  /-- There is no field at an index of a message type. -/
  | indexOutOfRange (index fieldCount : Nat) (message : String)
  /-- There is no message type of a name. -/
  | unknownMessage (name : String)
  /-- A descriptor set does not describe types. -/
  | descriptor (fault : Descriptor.Fault)
  /-- The file has no metadata on its columns. -/
  | missingMetadata
  /-- The metadata is neither text nor binary. -/
  | invalidMetadata (fault : Metadata.Fault)
  /-- The metadata is about another number of columns. -/
  | columnCountMismatch (stored actual : Nat)
  /-- Fields have no column, and there is no column for all others. -/
  | missingUnknownsColumn (fields : List String)
  /-- A column of the file does not hold bytes. -/
  | invalidColumnType (column actual : String)
  /-- The first row group of a split is beyond those of the file. -/
  | invalidRowGroup (start count : Nat)
  /-- Columns cannot be selected. -/
  | invalidSelection (fault : SelectionFault)
  /-- The bytes of a column are not the values of its field. -/
  | decode (field : String) (column : Nat) (fault : Column.Fault)
  /-- The column of all other fields does not hold an encoded message. -/
  | unknownFields (column : Nat) (fault : Wire.Fault)
  /-- A record has no such column. -/
  | columnOutOfRange (column width : Nat)
  /-- An operation came at the wrong time. -/
  | invalidState (fault : StateFault)
  /-- An earlier error ended the read. -/
  | readerFailed
deriving DecidableEq, Repr

/-- The key under which a file's metadata says what its columns hold. -/
def Metadata.key : String := "elephantbird.columnar.metadata"

namespace ReadError

/-- The category of an error. -/
def category : ReadError → Category
  | invalidDirective _ _ _ | indexOutOfRange _ _ _ | unknownMessage _ | descriptor _
  | invalidRowGroup _ _ => .configuration
  | missingMetadata | invalidMetadata _ | columnCountMismatch _ _ | missingUnknownsColumn _
  | invalidColumnType _ _ => .metadata
  | decode _ _ _ | unknownFields _ _ | columnOutOfRange _ _ => .decoding
  | file _ | io _ => .io
  | invalidSelection _ | invalidState _ | readerFailed => .usage

/-- The wording of an error. -/
def message : ReadError → String
  | file fault => "Parquet error: " ++ fault.message
  | io reason => "I/O error: " ++ reason
  | invalidDirective directive entry fault =>
    s!"Invalid required fields directive {Text.quoted directive}: " ++
      s!"{Text.quoted entry}: {fault.message}"
  | indexOutOfRange index fieldCount message =>
    s!"idx {index} is out of range for fields in {message} ({fieldCount} fields)"
  | unknownMessage name => "Unknown message type: " ++ name
  | descriptor fault => "Invalid descriptor set: " ++ fault.message
  | missingMetadata =>
    s!"could not find columnar metadata under key {Text.quoted Metadata.key}"
  | invalidMetadata fault => "Invalid columnar metadata: " ++ fault.message
  | columnCountMismatch stored actual =>
    s!"stored field list has {stored} entries but the file has {actual} columns"
  | missingUnknownsColumn fields =>
    "No unknowns column for fields not stored as columns: " ++ ", ".intercalate fields
  | invalidColumnType column actual =>
    s!"Invalid column type for {column}: expected Binary, got {actual}"
  | invalidRowGroup start count =>
    s!"Invalid row group: start_row_group {start} >= total row groups {count}"
  | invalidSelection fault => "Invalid column selection: " ++ fault.message
  | decode field column fault =>
    s!"failed to decode column {column} as field {field}: {fault.message}"
  | unknownFields column fault =>
    s!"failed to merge unknowns column {column}: {fault.message}"
  | columnOutOfRange column width =>
    s!"record has {width} columns, column {column} requested"
  | invalidState fault => "Invalid state: " ++ fault.message
  | readerFailed => "reader failed on an earlier error"

/-- The wordings of what lies behind an error, from the outside in. -/
def causes : ReadError → List String
  | file fault => [fault.message]
  | io reason => [reason]
  | descriptor fault => fault.message :: fault.causes
  | decode _ _ fault => fault.message :: fault.cause?.toList
  | unknownFields _ fault => [fault.message]
  | _ => []

end ReadError

end ColumnarRecords
