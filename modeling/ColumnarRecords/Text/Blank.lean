/-!
# Blank characters

The characters with the Unicode property `White_Space`, and trimming by them. Unlike
`Char.isWhitespace`, which knows the ASCII ones only, the class has twenty-five members;
`isBlank_of_isWhitespace` says that it extends core's.
-/

namespace ColumnarRecords.Text

/-- The character has the Unicode property `White_Space`. -/
def isBlank (c : Char) : Bool :=
  let n := c.toNat
  (9 ≤ n && n ≤ 13) || n == 0x20 || n == 0x85 || n == 0xA0 || n == 0x1680 ||
    (0x2000 ≤ n && n ≤ 0x200A) || n == 0x2028 || n == 0x2029 || n == 0x202F || n == 0x205F ||
    n == 0x3000

/-- The text without the blank characters at its two ends. -/
def trim (s : List Char) : List Char :=
  ((s.dropWhile isBlank).reverse.dropWhile isBlank).reverse

/-- Core's whitespace is blank. -/
theorem isBlank_of_isWhitespace {c : Char} (h : c.isWhitespace = true) : isBlank c = true := by
  simp only [Char.isWhitespace, Bool.or_eq_true, decide_eq_true_eq] at h
  rcases h with ((h | h) | h) | h <;> subst h <;> decide

/-- Trimming a text of blanks alone leaves nothing. -/
theorem trim_eq_nil_of_blank {s : List Char} (h : s.all isBlank = true) : trim s = [] := by
  have hd : s.dropWhile isBlank = [] := by
    induction s with
    | nil => rfl
    | cons c r ih =>
      simp only [List.all_cons, Bool.and_eq_true] at h
      simp [h.1, ih h.2]
  simp [trim, hd]

end ColumnarRecords.Text
