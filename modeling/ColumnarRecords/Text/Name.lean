/-!
# Plain names

The names that need no quotes in the files and paths of settings.
-/

namespace ColumnarRecords.Text

/-- The character may stand in a plain name: an ASCII letter or digit, an underscore or a hyphen. -/
def isNamePart (c : Char) : Bool :=
  ('a' ≤ c && c ≤ 'z') || ('A' ≤ c && c ≤ 'Z') || ('0' ≤ c && c ≤ '9') || c = '_' || c = '-'

end ColumnarRecords.Text
