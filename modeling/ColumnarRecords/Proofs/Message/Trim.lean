import ColumnarRecords.Proofs.Message.Order
import ColumnarRecords.Proofs.Message.Typed

/-!
# Messages by the fields that are set

Two messages with the same fields set may differ in what they hold for fields that are not, a default
value or a list of nothing, and in the order in which their maps list the entries. `Message.trim`
leaves out what does not count as set, at every depth, and puts the entries of each map in the order
of the keys, so messages are the same by their set fields if they are equal after trimming. A map that
is in order stays so (`Value.trim_map_of_ascending`). The value of an entry that does not count as set
stays what it is if it is written and becomes that of an unset field otherwise; the two differ in the
sign of a zero at most. Whether a field counts as set is not changed (`Field.isSet_trim`).
-/

namespace ColumnarRecords

open Descriptor

mutual

/-- A message of the type at a position without what does not count as set, at every depth. -/
def Message.trim (form : EntryForm) (p : Pool) (index : Nat) : Message → Message
  | ⟨entries⟩ => ⟨trimEntries form p (p.message index) entries⟩

/-- The entries that count as set, with what they hold trimmed. -/
def trimEntries (form : EntryForm) (p : Pool) (t : MessageType) :
    List (Nat × Entry) → List (Nat × Entry)
  | [] => []
  | (number, e) :: rest =>
    match e.trim form p t number with
    | some e => (number, e) :: trimEntries form p t rest
    | none => trimEntries form p t rest

/-- What is held under a number, if it counts as set. -/
def Entry.trim (form : EntryForm) (p : Pool) (t : MessageType) (number : Nat) :
    Entry → Option Entry
  | .unknown values => some (.unknown values)
  | .value v =>
    match t.find? number with
    | some f => if f.isSet v then some (.value (v.trim form p f.kind)) else none
    | none => none

/-- The value of a field of a kind with the messages in it trimmed and its maps in order. -/
def Value.trim (form : EntryForm) (p : Pool) (kind : Kind) : Value → Value
  | .list values => .list (trimList form p kind values)
  | .map entries =>
    match kind with
    | .message entry => .map (Column.insertAll (trimMap form p (p.message entry) entries) [])
    | _ => .map entries
  | .message m =>
    match kind with
    | .message index => .message (m.trim form p index)
    | _ => .message m
  | v => v

/-- The values of a repeated field, trimmed. -/
def trimList (form : EntryForm) (p : Pool) (kind : Kind) : List Value → List Value
  | [] => []
  | v :: rest => v.trim form p kind :: trimList form p kind rest

/-- The entries of a map with their values trimmed; none is left out. A value that is not written is
that of an unset field. -/
def trimMap (form : EntryForm) (p : Pool) (entry : MessageType) :
    List (MapKey × Value) → List (MapKey × Value)
  | [] => []
  | (key, v) :: rest =>
    (key,
      match entry.fields.find? 2 with
      | some f => if form.writesValue f v then v.trim form p f.kind else f.unsetValue
      | none => v) ::
    trimMap form p entry rest

end

/-- The value of a map's entry, trimmed. -/
def trimPart (form : EntryForm) (p : Pool) (entry : MessageType) (v : Value) : Value :=
  match entry.fields.find? 2 with
  | some f => if form.writesValue f v then v.trim form p f.kind else f.unsetValue
  | none => v

/-- The elements of a list are trimmed one by one. -/
theorem trimList_eq_map (form : EntryForm) (p : Pool) (kind : Kind) (values : List Value) :
    trimList form p kind values = values.map (Value.trim form p kind) := by
  induction values with
  | nil => rfl
  | cons v rest ih => rw [trimList, ih, List.map_cons]

/-- The entries of a map are trimmed one by one. -/
theorem trimMap_eq_map (form : EntryForm) (p : Pool) (entry : MessageType)
    (entries : List (MapKey × Value)) :
    trimMap form p entry entries = entries.map fun e => (e.1, trimPart form p entry e.2) := by
  induction entries with
  | nil => rfl
  | cons e rest ih =>
    obtain ⟨key, v⟩ := e
    rw [trimMap, ih, List.map_cons, trimPart]

/-- Of a map in the order of its keys only the values are trimmed. -/
theorem Value.trim_map_of_ascending (form : EntryForm) (p : Pool) (entry : Nat)
    {entries : List (MapKey × Value)}
    (h : entries.Pairwise fun a b => MapKey.lt a.1 b.1 = true) :
    (Value.map entries).trim form p (.message entry) =
      .map (trimMap form p (p.message entry) entries) := by
  have hascending : (trimMap form p (p.message entry) entries).Pairwise
      fun a b => MapKey.lt a.1 b.1 = true := by
    rw [trimMap_eq_map]
    exact List.pairwise_map.2 h
  rw [Value.trim, Column.insertAll_of_ascending hascending]

/-- The entries that are left are those that count as set. -/
theorem trimEntries_eq_filterMap (form : EntryForm) (p : Pool) (t : MessageType)
    (entries : List (Nat × Entry)) :
    trimEntries form p t entries =
      entries.filterMap fun x => (x.2.trim form p t x.1).map fun e => (x.1, e) := by
  induction entries with
  | nil => rfl
  | cons x rest ih =>
    obtain ⟨number, e⟩ := x
    rw [trimEntries, ih, List.filterMap_cons]
    cases e.trim form p t number <;> rfl

/-- A trimmed value counts as set just if the value does. -/
theorem Descriptor.Field.isSet_trim (form : EntryForm) (p : Pool) (f : Field) (kind : Kind)
    (v : Value) : f.isSet (v.trim form p kind) = f.isSet v := by
  unfold Field.isSet
  -- Trimming keeps the constructor of a value and whether a list or a map is empty.
  cases f.arity with
  | single =>
    cases v with
    | list values => rfl
    | map entries => cases kind <;> rfl
    | message m => cases kind <;> rfl
    | _ => rfl
  | list =>
    cases v with
    | list values => cases values <;> rfl
    | map entries => cases kind <;> rfl
    | message m => cases kind <;> rfl
    | _ => rfl
  | map entry =>
    cases v with
    | list values => rfl
    | map entries =>
      cases kind with
      | message index =>
        cases entries with
        | nil => rfl
        | cons e rest => simp [Value.trim, trimMap, Column.insertAll_ne_nil (List.cons_ne_nil _ _)]
      | scalar s => rfl
      | enum index => rfl
    | message m => cases kind <;> rfl
    | _ => rfl

end ColumnarRecords
