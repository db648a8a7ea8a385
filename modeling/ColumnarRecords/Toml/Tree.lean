import ColumnarRecords.Settings.Setting

/-!
# Tables of settings files

A settings file builds its tables in several ways, and the way decides what may be added later: a
header opens a table, once; the names before the last one of a header or of a key with points stand
for tables too, which a header may still open in the first case, and further keys with points may
extend in the second. A key is set once.
-/

namespace ColumnarRecords.Toml

/-- How a table came to be. -/
inductive Origin where
  /-- By a header of its own. -/
  | header
  /-- By a header of a table inside it. -/
  | path
  /-- By a key with points. -/
  | key
deriving DecidableEq, Repr

/-- What a name of a table stands for. -/
inductive Node where
  /-- A value, to which nothing can be added. -/
  | value (s : Setting)
  /-- A table. -/
  | table (origin : Origin) (entries : List (String × Node))
  /-- Tables that headers append one after another. -/
  | tables (items : List (List (String × Node)))

namespace Node

/-- The node of a name. -/
def find? (name : String) (entries : List (String × Node)) : Option Node :=
  (entries.find? (·.1 == name)).map Prod.snd

/-- The node is a table that keys with points made. -/
def isOfKey : Node → Bool
  | table .key _ => true
  | _ => false

/-- The entries with another node for a name that they have. -/
def replace (name : String) (node : Node) (entries : List (String × Node)) :
    List (String × Node) :=
  entries.map fun e => if e.1 = name then (name, node) else e

/-- Changes the entries of a table, or of the last of several ones. -/
def within? (change : List (String × Node) → Option (List (String × Node))) :
    Node → Option Node
  | value _ => none
  | table origin entries => (change entries).map (table origin)
  | tables items =>
    match items.getLast? with
    | none => none
    | some entries => (change entries).map fun changed => tables (items.dropLast ++ [changed])

/-- The entries with a value set at the end of a key. Tables on its way are those of other keys with
points; a table that stands on the way of a header may be passed, but not extended. -/
def set? (s : Setting) : List String → List (String × Node) → Option (List (String × Node))
  | [], _ => none
  | [name], entries =>
    match find? name entries with
    | none => some (entries ++ [(name, value s)])
    | some _ => none
  | name :: rest, entries =>
    match find? name entries with
    | none => (set? s rest []).map fun inner => entries ++ [(name, table .key inner)]
    | some (value _) | some (table .header _) => none
    | some node =>
      if node.isOfKey || 2 ≤ rest.length then
        (within? (set? s rest) node).map fun changed => replace name changed entries
      else none

/-- The entries changed in the table at the end of the names of a header. -/
def descend? (change : List (String × Node) → Option (List (String × Node))) :
    List String → List (String × Node) → Option (List (String × Node))
  | [], entries => change entries
  | name :: rest, entries =>
    match find? name entries with
    | none => (descend? change rest []).map fun inner => entries ++ [(name, table .path inner)]
    | some node =>
      (within? (descend? change rest) node).map fun changed => replace name changed entries

/-- The entries with a table opened. -/
def open? (name : String) (entries : List (String × Node)) : Option (List (String × Node)) :=
  match find? name entries with
  | none => some (entries ++ [(name, table .header [])])
  | some (table .path inner) => some (replace name (table .header inner) entries)
  | some _ => none

/-- The entries with a table appended to those of a name. -/
def append? (name : String) (entries : List (String × Node)) : Option (List (String × Node)) :=
  match find? name entries with
  | none => some (entries ++ [(name, tables [[]])])
  | some (tables items) => some (replace name (tables (items ++ [[]])) entries)
  | some _ => none

mutual

/-- The setting that a node is. -/
def toSetting : Node → Setting
  | value s => s
  | table _ entries => .table (entriesToSettings entries)
  | tables items => .list (itemsToSettings items)

/-- The settings that entries are. -/
def entriesToSettings : List (String × Node) → List (String × Setting)
  | [] => []
  | (name, node) :: rest => (name, toSetting node) :: entriesToSettings rest

/-- The settings that tables are. -/
def itemsToSettings : List (List (String × Node)) → List Setting
  | [] => []
  | entries :: rest => .table (entriesToSettings entries) :: itemsToSettings rest

end

end Node

end ColumnarRecords.Toml
