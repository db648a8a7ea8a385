import ColumnarRecords.Text.Utf8
import ColumnarRecords.Wire.Basic

/-!
# Faults of a column's bytes

Why the bytes that a column holds for one record are not the values of its field.
-/

namespace ColumnarRecords.Column

/-- Why bytes are not the values of a field. -/
inductive Fault where
  /-- A value needs more bytes than are left. -/
  | truncated (needed remaining : Nat)
  /-- A varint is cut off, longer than ten bytes, or above 64 bits. -/
  | invalidVarint
  /-- A string is not UTF-8. -/
  | notUtf8 (fault : Text.Utf8.Fault)
  /-- A nested message does not decode. -/
  | nested (fault : Wire.Fault)
  /-- Bytes are left after a single value. -/
  | trailingBytes (count : Nat)
  /-- Groups have no length, so a list of them cannot be told apart. -/
  | repeatedGroup
  /-- The key of a map entry is of a kind that no key can have, or there is none. -/
  | invalidMapKey
deriving DecidableEq, Repr

/-- What lies behind a fault: the wording of the fault of a lower layer. -/
def Fault.cause? : Fault → Option String
  | .invalidVarint => some Wire.Fault.invalidVarint.message
  | .notUtf8 fault => some fault.message
  | .nested fault => some fault.message
  | .truncated _ _ | .trailingBytes _ | .repeatedGroup | .invalidMapKey => none

/-- The wording of a fault. -/
def Fault.message : Fault → String
  | .truncated needed remaining =>
    s!"truncated value: needed {needed} bytes, {remaining} remaining"
  | .invalidVarint => "malformed varint: " ++ Wire.Fault.invalidVarint.message
  | .notUtf8 fault => "invalid UTF-8 in string value: " ++ fault.message
  | .nested fault => "malformed nested message: " ++ fault.message
  | .trailingBytes count => s!"{count} trailing bytes after singular value"
  | .repeatedGroup => "repeated group fields cannot be decoded from a column"
  | .invalidMapKey => "invalid map key"

end ColumnarRecords.Column
