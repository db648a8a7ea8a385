/-!
# Names of definitions

Full names are the names of the package, the messages around a definition and the definition
itself, with points between them. A reference that starts with a point is a full name; another one
is looked up from the innermost scope outward.
-/

namespace ColumnarRecords.Descriptor.Naming

/-- The full name of something defined in a scope. -/
def qualify (scope name : String) : String :=
  if scope = "" then name else scope ++ "." ++ name

/-- The scope around a scope, which is the empty one for a scope without a point. -/
def parent (scope : String) : String :=
  String.ofList ((scope.toList.reverse.dropWhile (· != '.')).drop 1).reverse

/-- The scope around a named one has a shorter name. -/
theorem length_parent_lt {scope : String} (h : scope ≠ "") :
    (parent scope).toList.length < scope.toList.length := by
  have hn : scope.toList ≠ [] := by simpa using h
  have := (List.dropWhile_sublist (l := scope.toList.reverse) (· != '.')).length_le
  have := List.length_pos_iff.2 hn
  simp only [parent, String.toList_ofList, List.length_reverse, List.length_drop] at *
  omega

/-- A scope and the scopes around it, the innermost first and the empty one last. -/
def scopes (scope : String) : List String :=
  if _h : scope = "" then [""] else scope :: scopes (parent scope)
termination_by scope.toList.length
decreasing_by exact length_parent_lt _h

/-- The scopes that are named by the beginnings of a package that end before a point. -/
def packageScopes (package : String) : List String :=
  let cs := package.toList
  ((List.range cs.length).filter fun i => cs[i]? == some '.').map fun i =>
    String.ofList (cs.take i)

/-- The full name that a reference is, if it starts with a point. -/
def absolute? (reference : String) : Option String :=
  match reference.toList with
  | '.' :: name => some (String.ofList name)
  | _ => none

/-- The part of a reference before its first point. -/
def firstPart (reference : String) : String :=
  String.ofList (reference.toList.takeWhile (· != '.'))

/-- The name that a field has in JSON unless another is declared: an underscore is left out and
makes the letter after it a capital. -/
def jsonName (name : String) : String :=
  String.ofList (camel false name.toList)
where
  /-- The rest of the name, the next letter being made a capital or not. -/
  camel : Bool → List Char → List Char
    | _, [] => []
    | _, '_' :: rest => camel true rest
    | true, c :: rest => c.toUpper :: camel false rest
    | false, c :: rest => c :: camel false rest

/-- A name without the differences of case and underscores. -/
def folded (name : String) : List Char :=
  (name.toList.filter (· != '_')).map Char.toLower

end ColumnarRecords.Descriptor.Naming
