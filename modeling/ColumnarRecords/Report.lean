import ColumnarRecords.Error

/-!
# Reports of errors

An error as the user sees it: its wording, and below it the wordings of what lies behind it, from
the outside in. Several of these are numbered. Lines after the first one of a wording are indented
like the first.
-/

namespace ColumnarRecords

/-- An error with what lies behind it. -/
structure Report where
  /-- The wording of the error. -/
  message : String
  /-- The wordings of what lies behind it, from the outside in. -/
  causes : List String
deriving DecidableEq, Repr

namespace Report

/-- The report of an error with nothing behind it. -/
def ofMessage (message : String) : Report := ⟨message, []⟩

/-- The report of an error. -/
def ofError (e : ReadError) : Report := ⟨e.message, e.causes⟩

/-- The report of an error that another one lies behind. -/
def within (message : String) (r : Report) : Report := ⟨message, r.message :: r.causes⟩

/-- The wordings from the outside in. -/
def chain (r : Report) : List String := r.message :: r.causes

/-- The wordings on one line. -/
def line (r : Report) : String := ": ".intercalate r.chain

/-- A text at the left of whose first line something stands, and that many spaces at the left of
the other lines. -/
def indented (start s : String) : String :=
  let spaces := String.ofList (List.replicate start.length ' ')
  start ++ ("\n" ++ spaces).intercalate (s.splitOn "\n")

/-- The mark of a numbered cause, as wide as seven characters at least. -/
def number (n : Nat) : String :=
  let digits := toString n
  String.ofList (List.replicate (5 - digits.length) ' ') ++ digits ++ ": "

/-- The text of what lies behind an error. -/
def causesText (causes : List String) : String :=
  match causes with
  | [] => ""
  | [cause] => "\n\nCaused by:\n" ++ indented "    " cause
  | causes =>
    "\n\nCaused by:" ++
      String.join (causes.mapIdx fun n cause => "\n" ++ indented (number n) cause)

/-- The text of a report. -/
def text (r : Report) : String :=
  "Error: " ++ r.message ++ causesText r.causes ++ "\n"

end Report

end ColumnarRecords
