import ColumnarRecords.Descriptor.Options

/-!
# Pools from descriptor sets

The types that the files of a descriptor set declare, with every reference resolved. The files may
come in any order. First the names of all files are collected, then all their types are resolved,
and then all their options are looked up; the first flaw is the fault.
-/

namespace ColumnarRecords.Descriptor

/-- The types that files declare. -/
def Pool.ofFiles (files : List Declaration.File) : Except Fault Pool := do
  let definitions ← Definitions.ofFiles files
  let r ← Resolved.ofFiles definitions files
  files.forM (checkFileOptions definitions files r)
  return r.pool

/-- The types that an encoded descriptor set declares. -/
def Pool.decode (bytes : List UInt8) : Except Fault Pool :=
  match Declaration.decodeFiles bytes with
  | .error fault => .error (.undecodable fault)
  | .ok files => Pool.ofFiles files

end ColumnarRecords.Descriptor
