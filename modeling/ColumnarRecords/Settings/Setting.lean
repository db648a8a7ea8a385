import ColumnarRecords.Floating.Layout
import ColumnarRecords.Floating.Nearest
import ColumnarRecords.Text.Numeral

/-!
# Settings of any shape

What a layer of the configuration says, as a tree. A layer is laid over another by `Setting.merge`:
tables are merged key by key, and anything else takes the place of what was there. A place is
named by a path of keys and positions; on the way to it, whatever is not of the right shape gives
way to a table or list.
-/

namespace ColumnarRecords

/-- A setting. -/
inductive Setting where
  /-- Nothing. -/
  | unset
  /-- A truth value. -/
  | bool (b : Bool)
  /-- A signed word of 64 bits. -/
  | int (n : Int)
  /-- The bits of a floating point number of 64 bits. -/
  | float (bits : Nat)
  /-- A text. -/
  | text (s : String)
  /-- Settings with names. -/
  | table (entries : List (String × Setting))
  /-- Settings in order. -/
  | list (items : List Setting)

namespace Setting

/-- A step of a path. -/
inductive Step where
  /-- To the setting of a name. -/
  | key (name : String)
  /-- To the setting at a position; a negative one counts from the end. -/
  | index (position : Int)
deriving DecidableEq, Repr

/-- There is nothing. -/
def isUnset : Setting → Bool
  | unset => true
  | _ => false

/-- The setting of a name in a table. -/
def find? (name : String) : Setting → Option Setting
  | table entries => (entries.find? (·.1 == name)).map Prod.snd
  | _ => none

/-- The entries with the one of a name changed; a new one comes last. -/
def updateEntry (name : String) (f : Setting → Setting) :
    List (String × Setting) → List (String × Setting)
  | [] => [(name, f unset)]
  | (k, s) :: rest => if k = name then (k, f s) :: rest else (k, s) :: updateEntry name f rest

/-- The table with the entry of a name changed. -/
def updateKey (name : String) (f : Setting → Setting) : Setting → Setting
  | table entries => table (updateEntry name f entries)
  | _ => table (updateEntry name f [])

/-- The items with the one at a position changed; the list is lengthened as far as needed. -/
def updateItem (position : Int) (f : Setting → Setting) (items : List Setting) : List Setting :=
  if 0 ≤ position then
    let i := position.toNat
    let items := items ++ List.replicate (i + 1 - items.length) unset
    items.modify i f
  else
    let items := List.replicate (position.natAbs - items.length) unset ++ items
    items.modify (items.length - position.natAbs) f

/-- The setting with the place at the end of a path changed. -/
def update (f : Setting → Setting) : List Step → Setting → Setting
  | [], s => f s
  | .key name :: rest, s => s.updateKey name (update f rest)
  | .index position :: rest, s =>
    match s with
    | list items => list (updateItem position (update f rest) items)
    | _ => list (updateItem position (update f rest) [])

mutual

/-- The setting laid over another one. -/
def merge : Setting → Setting → Setting
  | table entries, below => mergeEntries entries (if below.isUnset then table [] else below)
  | s, _ => s

/-- The entries of a table laid over a setting one after another. -/
def mergeEntries : List (String × Setting) → Setting → Setting
  | [], below => below
  | (name, s) :: rest, below => mergeEntries rest (below.updateKey name fun old => merge s old)

end

/-- The largest count. -/
def maxCount : Nat := Text.Numeral.maxWord

/-- The count that a setting is: a whole number that is not negative, the nearest one to a floating
point number, or what a truth value or a text stands for. -/
def count? : Setting → Option Nat
  | bool b => some (if b then 1 else 0)
  | int n => if 0 ≤ n then some n.toNat else none
  | float bits => some ((Floating.ofBits .binary64 bits).saturate maxCount)
  | text s =>
    let lower := String.ofList (s.toList.map Char.toLower)
    if lower ∈ ["true", "on", "yes"] then some 1
    else if lower ∈ ["false", "off", "no"] then some 0
    else
      match Text.Numeral.readNat 10 maxCount s.toList with
      | .ok n => some n
      | .error _ => none
  | unset | table _ | list _ => none

/-- The text that a plain setting is. -/
def text? : Setting → Option String
  | bool b => some (if b then "true" else "false")
  | int n => some (toString n)
  | float bits => some (Floating.Layout.plain.text .binary64 (Floating.ofBits .binary64 bits))
  | text s => some s
  | unset | table _ | list _ => none

/-- A lookup among entries of which one was changed. -/
theorem find?_updateEntry (name n : String) (f : Setting → Setting)
    (entries : List (String × Setting)) :
    ((updateEntry name f entries).find? (·.1 == n)).map Prod.snd =
      if n = name then some (f (((entries.find? (·.1 == name)).map Prod.snd).getD unset))
      else (entries.find? (·.1 == n)).map Prod.snd := by
  induction entries with
  | nil =>
    by_cases h : n = name
    · subst h
      simp [updateEntry]
    · simp [updateEntry, h, Ne.symm h]
  | cons e rest ih =>
    obtain ⟨k, s⟩ := e
    by_cases hk : k = name
    · subst hk
      by_cases h : n = k
      · subst h
        simp [updateEntry]
      · simp [updateEntry, h, Ne.symm h]
    · by_cases hn : k = n
      · subst hn
        simp [updateEntry, hk]
      · simpa [updateEntry, hk, hn] using ih

end Setting

end ColumnarRecords
