import Mathlib
import ColumnarRecords.Proofs.Message.Merge
import ColumnarRecords.Schema

/-!
# Loading a schema in steps

A descriptor set is loaded by reading its files, collecting the names that they define, resolving
their types and checking their options. `Schema.ofDescriptorSet_eq_ok` puts the outcomes of the four
steps together, for a set of one file. The only options in such a set are usually those that mark
the entries of a map, and they are in order whatever the set declares
(`OptionScope.check_mapEntry`).

Two sets are loaded this way. The schema `Sample.regular` is one that the compiler of the language
makes. `Sample.loose` is what the language has not but the loader lets pass: a list in a oneof, and
maps whose entries are not a key and a value that are independent of each other.
-/

namespace ColumnarRecords

open Descriptor Wire Message

namespace Descriptor

/-- The type of the options of messages, among the types of options. -/
theorem OptionTypes.findMessage?_messageOptions :
    OptionTypes.pool.findMessage? "google.protobuf.MessageOptions" = some 1 := by
  unfold Pool.findMessage? OptionTypes.pool
  rw [List.findIdx?_map]
  unfold OptionTypes.messages
  rw [List.findIdx?_cons, List.findIdx?_cons]
  simp

/-- The option that marks the entries of a map. -/
theorem OptionTypes.find?_mapEntry :
    (OptionTypes.pool.message 1).find? 7 =
      some (OptionTypes.single OptionTypes.flag 7 "map_entry") := by
  rfl

/-- The options that mark the entry of a map are in order, unless the set declares the type of such
options itself. -/
theorem OptionScope.check_mapEntry {o : OptionScope}
    (h : o.declared.findMessage? "google.protobuf.MessageOptions" = none) (place : String) :
    o.check place "MessageOptions" (some ⟨[56, 1], []⟩) = .ok () := by
  have htype : o.typeOf ("google.protobuf." ++ "MessageOptions") = (OptionTypes.pool, 1) := by
    show o.typeOf "google.protobuf.MessageOptions" = _
    rw [typeOf, h, OptionTypes.findMessage?_messageOptions]
    rfl
  have hkey : readKey [56, 1] = .ok ((7, .varint), [1]) := rfl
  have hvalue : readVarint [1] = .ok (1, []) := rfl
  have hnested : readField OptionTypes.pool nestingLimit =
      readFieldWith OptionTypes.pool (some (readField OptionTypes.pool 99)) nestingLimit := rfl
  have harity : (OptionTypes.single OptionTypes.flag 7 "map_entry").arity = .single := rfl
  have hkind : (OptionTypes.single OptionTypes.flag 7 "map_entry").kind = .scalar .bool := rfl
  -- The options are one field, `map_entry`, which is read by its arity and kind.
  have hdecode : ∃ m, Message.decode OptionTypes.pool 1 [56, 1] = .ok m := by
    rw [Message.decode, merge_eq_map, mergeFields_of_ne_nil _ _ _ (List.cons_ne_nil _ _), andThen,
      keyed_eq_andThen, andThen, hkey, hnested]
    simp only [readFieldWith_of_some OptionTypes.find?_mapEntry, readKnown_of_single harity,
      readSingle_of_scalar hkind, expecting, expect, Scalar.coding, Coding.wireType, Coding.read,
      if_true, andThen, hvalue, mergeFields_nil]
    exact ⟨_, rfl⟩
  obtain ⟨m, hm⟩ := hdecode
  unfold check
  simp only [htype, hm]
  rfl

/-- An item has no options, unless it is the entry of a map and marked as such. -/
def Item.isPlain (item : Item) : Bool :=
  match item.subject with
  | .package => true
  | .message m => (m.options == none || m.options == some ⟨[56, 1], []⟩) && m.extensionRanges.isEmpty
  | .oneof d => d.options == none
  | .field d => d.options == none
  | .extension d => d.options == none
  | .enum d => d.options == none
  | .enumValue d => d.options == none
  | .service d => d.options == none
  | .method d => d.options == none

/-- The options of an item that has none but the mark of an entry are in order. -/
theorem OptionScope.checkItem_of_isPlain {o : OptionScope}
    (h : o.declared.findMessage? "google.protobuf.MessageOptions" = none) {item : Item}
    (hitem : item.isPlain) : o.checkItem item = .ok () := by
  unfold Item.isPlain at hitem
  unfold checkItem
  cases hsubject : item.subject with
  | package => rfl
  | message m =>
    rw [hsubject] at hitem
    simp only [Bool.and_eq_true, Bool.or_eq_true, beq_iff_eq, List.isEmpty_iff] at hitem
    obtain ⟨hoptions, hranges⟩ := hitem
    have hcheck : o.check item.fullName "MessageOptions" m.options = .ok () := by
      rcases hoptions with hoptions | hoptions <;> rw [hoptions]
      · rfl
      · exact check_mapEntry h item.fullName
    simp only [hcheck, hranges]
    rfl
  | oneof d | field d | extension d | enum d | enumValue d | service d | method d =>
    rw [hsubject] at hitem
    simp only [beq_iff_eq] at hitem
    simp only [hitem]
    rfl

/-- The options of a file that has none but marks of entries are in order, unless the set declares
the type of such options itself. -/
theorem checkFileOptions_of_isPlain {definitions : Definitions} {files : List Declaration.File}
    {r : Resolved} {f : Declaration.File} {dialect : Dialect}
    (hdialect : Dialect.ofDeclared f.dialect = .ok dialect) (hoptions : f.options = none)
    (hdeclared : r.pool.findMessage? "google.protobuf.MessageOptions" = none)
    (hitems : f.items.all Item.isPlain) : checkFileOptions definitions files r f = .ok () := by
  unfold checkFileOptions
  rw [hdialect, hoptions]
  show f.items.forM _ = _
  generalize f.items = items at hitems
  induction items with
  | nil => rfl
  | cons item rest ih =>
    rw [List.all_cons, Bool.and_eq_true] at hitems
    have hitem := OptionScope.checkItem_of_isPlain
      (o := ⟨Scope.ofFile definitions files dialect f, r.pool, r.extensions⟩) hdeclared hitems.1
    show (OptionScope.checkItem _ item >>= fun _ => rest.forM _) = _
    rw [hitem]
    exact ih hitems.2

end Descriptor

/-- A schema is loaded from a set of one file if each step succeeds. -/
theorem Schema.ofDescriptorSet_eq_ok {bytes : List UInt8} {file : Declaration.File}
    {definitions : Definitions} {r : Resolved} {name : String} {index : Nat}
    (hfiles : Declaration.decodeFiles bytes = .ok [file])
    (hdefinitions : Definitions.ofFiles [file] = .ok definitions)
    (hresolved : Resolved.ofFiles definitions [file] = .ok r)
    (hoptions : checkFileOptions definitions [file] r file = .ok ())
    (hname : String.ofList (name.toList.dropWhile (· = '.')) = name)
    (hindex : r.pool.findMessage? name = some index) :
    ofDescriptorSet bytes name = .ok ⟨r.pool, index⟩ := by
  have hpool : Pool.decode bytes = .ok r.pool := by
    rw [Pool.decode, hfiles]
    show Pool.ofFiles [file] = .ok r.pool
    unfold Pool.ofFiles
    rw [hdefinitions]
    show (Resolved.ofFiles definitions [file] >>= fun r => _) = _
    rw [hresolved]
    show ((checkFileOptions definitions [file] r file >>= fun _ => pure ()) >>= fun _ => pure r.pool) =
      _
    rw [hoptions]
    rfl
  unfold ofDescriptorSet ofPool
  rw [hpool]
  simp only [hname, hindex]

namespace Sample

/-- A declared field without options. -/
def declared (name : String) (number : Int) (repeated : Bool) (type : Declaration.TypeRef)
    (defaultText : Option String) (oneofIndex : Option Int) : Declaration.Field :=
  ⟨name, number, repeated, type, none, defaultText, oneofIndex, none, none, false, none⟩

/-- A declared message with the messages inside it and its oneofs. -/
def declaredMessage (name : String) (fields : List Declaration.Field)
    (nested : List Declaration.MessageType) (oneofs : List Declaration.Oneof) :
    Declaration.MessageType :=
  ⟨name, fields, nested, [], [], oneofs, [], [], false, none⟩

/-- A declared entry of a map. -/
def declaredEntry (name : String) (fields : List Declaration.Field) : Declaration.MessageType :=
  ⟨name, fields, [], [], [], [], [], [], true, some ⟨[56, 1], []⟩⟩

/-- A file of one message. -/
def declaredFile (name : String) (m : Declaration.MessageType) (dialect : Option String) :
    Declaration.File :=
  ⟨name, name, [], [], [], [m], [], [], [], dialect, none⟩

/-- A field of a type. -/
def field (package name : String) (number : Nat) (kind : Kind) (arity : Arity)
    (defaultValue : Value) : Field :=
  ⟨number, name, package ++ name, name, kind, arity, false, false, none, false, defaultValue⟩

/-- The entry of the regular map, as declared. -/
def regularEntry : Declaration.MessageType :=
  declaredEntry "MEntry" [declared "key" 1 false ⟨9, ""⟩ none none,
    declared "value" 2 false ⟨5, ""⟩ none none]

/-- The regular message, as declared. -/
def regularMessage : Declaration.MessageType :=
  declaredMessage "A" [declared "s" 1 false ⟨9, ""⟩ none none,
    declared "r" 2 true ⟨5, ""⟩ none none, declared "m" 3 true ⟨11, ".a.A.MEntry"⟩ none none,
    declared "n" 4 false ⟨11, ".a.A"⟩ none none] [regularEntry] []

/-- The regular set: a message of a text, numbers, a map and a message of its own type. -/
def regularSet : List UInt8 :=
  [10, 124, 10, 1, 97, 18, 1, 97, 34, 108, 10, 1, 65, 18, 9, 10, 1, 115, 24, 1, 32, 1, 40, 9, 18, 9,
    10, 1, 114, 24, 2, 32, 3, 40, 5, 18, 22, 10, 1, 109, 24, 3, 32, 3, 40, 11, 50, 11, 46, 97, 46,
    65, 46, 77, 69, 110, 116, 114, 121, 18, 15, 10, 1, 110, 24, 4, 32, 1, 40, 11, 50, 4, 46, 97, 46,
    65, 26, 40, 10, 6, 77, 69, 110, 116, 114, 121, 18, 11, 10, 3, 107, 101, 121, 24, 1, 32, 1, 40, 9,
    18, 13, 10, 5, 118, 97, 108, 117, 101, 24, 2, 32, 1, 40, 5, 58, 2, 56, 1, 98, 6, 112, 114, 111,
    116, 111, 51]

/-- The names that the regular set defines. -/
def regularDefinitions : Definitions :=
  ⟨[⟨"a", "a", .package⟩, ⟨"a.A", "a", .message 0 regularMessage⟩, ⟨"a.A.s", "a", .member⟩,
    ⟨"a.A.r", "a", .member⟩, ⟨"a.A.m", "a", .member⟩, ⟨"a.A.n", "a", .member⟩,
    ⟨"a.A.MEntry", "a", .message 1 regularEntry⟩, ⟨"a.A.MEntry.key", "a", .member⟩,
    ⟨"a.A.MEntry.value", "a", .member⟩], 2, 0⟩

/-- The types that the regular set declares. -/
def regularTypes : Resolved :=
  ⟨[⟨"a.A", ⟨[field "a.A." "s" 1 (.scalar .string) .single (.string ""),
      { field "a.A." "r" 2 (.scalar .int32) .list (.i32 0) with isPacked := true },
      field "a.A." "m" 3 (.message 1) (.map 1) (.message .empty),
      { field "a.A." "n" 4 (.message 0) .single (.message .empty) with hasPresence := true }],
      by decide, by decide⟩, .empty, [], false⟩,
    ⟨"a.A.MEntry", ⟨[field "a.A.MEntry." "key" 1 (.scalar .string) .single (.string ""),
      field "a.A.MEntry." "value" 2 (.scalar .int32) .single (.i32 0)],
      by decide, by decide⟩, .empty, [], true⟩], [], []⟩

/-- The schema of the regular set. -/
def regular : Schema := ⟨regularTypes.pool, 0⟩

/-- The schema is loaded from the regular set. -/
theorem ofDescriptorSet_regularSet :
    Schema.ofDescriptorSet regularSet "a.A" = .ok regular := by
  have hoptions : checkFileOptions regularDefinitions [declaredFile "a" regularMessage
      (some "proto3")] regularTypes (declaredFile "a" regularMessage (some "proto3")) = .ok () :=
    checkFileOptions_of_isPlain rfl rfl rfl rfl
  exact Schema.ofDescriptorSet_eq_ok (by cbv) (by cbv) (by cbv)
    hoptions (by decide) (by cbv)

/-- A declared entry of texts and numbers, which may be in a oneof. -/
def looseEntry (name : String) (repeated : Bool) (keyDefault : Option String)
    (oneofIndex : Option Int) : Declaration.MessageType :=
  declaredEntry name [declared "k" 1 repeated ⟨9, ""⟩ keyDefault oneofIndex,
    declared "v" 2 false ⟨5, ""⟩ none oneofIndex]

/-- The entry of a map whose key and value are in a oneof. -/
def looseChoice : Declaration.MessageType :=
  { looseEntry "M" false none (some 0) with oneofs := [⟨"o", none⟩] }

/-- The entry of a map that has a field more than a key and a value. -/
def looseTriple : Declaration.MessageType :=
  declaredEntry "E" [declared "k" 1 false ⟨9, ""⟩ none none,
    declared "v" 2 false ⟨5, ""⟩ none none, declared "w" 3 false ⟨5, ""⟩ none none]

/-- The loose message, as declared: numbers in a oneof, and four maps. The key and the value of the
first are in a oneof, the key of the second has a default, the entry of the third has a field more,
and the key of the fourth is repeated. -/
def looseMessage : Declaration.MessageType :=
  declaredMessage "B" [declared "x" 1 true ⟨5, ""⟩ none (some 0),
    declared "m" 2 true ⟨11, ".b.B.M"⟩ none none, declared "d" 3 true ⟨11, ".b.B.D"⟩ none none,
    declared "e" 4 true ⟨11, ".b.B.E"⟩ none none, declared "r" 5 true ⟨11, ".b.B.R"⟩ none none]
    [looseChoice, looseEntry "D" false (some "k") none, looseTriple, looseEntry "R" true none none]
    [⟨"p", none⟩]

/-- The loose set: a message of numbers in a oneof and of four maps whose entries are no pairs. -/
def looseSet : List UInt8 :=
  [10, 253, 1, 10, 1, 98, 18, 1, 98, 34, 244, 1, 10, 1, 66, 18, 11, 10, 1, 120, 24, 1, 32, 3,
    40, 5, 72, 0, 18, 17, 10, 1, 109, 24, 2, 32, 3, 40, 11, 50, 6, 46, 98, 46, 66, 46, 77, 18,
    17, 10, 1, 100, 24, 3, 32, 3, 40, 11, 50, 6, 46, 98, 46, 66, 46, 68, 18, 17, 10, 1, 101, 24,
    4, 32, 3, 40, 11, 50, 6, 46, 98, 46, 66, 46, 69, 18, 17, 10, 1, 114, 24, 5, 32, 3, 40, 11,
    50, 6, 46, 98, 46, 66, 46, 82, 26, 38, 10, 1, 77, 18, 11, 10, 1, 107, 24, 1, 32, 1, 40, 9,
    72, 0, 18, 11, 10, 1, 118, 24, 2, 32, 1, 40, 5, 72, 0, 58, 2, 56, 1, 66, 3, 10, 1, 111, 26,
    32, 10, 1, 68, 18, 12, 10, 1, 107, 24, 1, 32, 1, 40, 9, 58, 1, 107, 18, 9, 10, 1, 118, 24,
    2, 32, 1, 40, 5, 58, 2, 56, 1, 26, 40, 10, 1, 69, 18, 9, 10, 1, 107, 24, 1, 32, 1, 40, 9,
    18, 9, 10, 1, 118, 24, 2, 32, 1, 40, 5, 18, 9, 10, 1, 119, 24, 3, 32, 1, 40, 5, 58, 2, 56,
    1, 26, 29, 10, 1, 82, 18, 9, 10, 1, 107, 24, 1, 32, 3, 40, 9, 18, 9, 10, 1, 118, 24, 2, 32,
    1, 40, 5, 58, 2, 56, 1, 66, 3, 10, 1, 112]

/-- The names that the loose set defines. -/
def looseDefinitions : Definitions :=
  ⟨[⟨"b", "b", .package⟩, ⟨"b.B", "b", .message 0 looseMessage⟩, ⟨"b.B.p", "b", .member⟩,
    ⟨"b.B.x", "b", .member⟩, ⟨"b.B.m", "b", .member⟩, ⟨"b.B.d", "b", .member⟩,
    ⟨"b.B.e", "b", .member⟩, ⟨"b.B.r", "b", .member⟩, ⟨"b.B.M", "b", .message 1 looseChoice⟩,
    ⟨"b.B.M.o", "b", .member⟩, ⟨"b.B.M.k", "b", .member⟩, ⟨"b.B.M.v", "b", .member⟩,
    ⟨"b.B.D", "b", .message 2 (looseEntry "D" false (some "k") none)⟩,
    ⟨"b.B.D.k", "b", .member⟩, ⟨"b.B.D.v", "b", .member⟩, ⟨"b.B.E", "b", .message 3 looseTriple⟩,
    ⟨"b.B.E.k", "b", .member⟩, ⟨"b.B.E.v", "b", .member⟩, ⟨"b.B.E.w", "b", .member⟩,
    ⟨"b.B.R", "b", .message 4 (looseEntry "R" true none none)⟩, ⟨"b.B.R.k", "b", .member⟩,
    ⟨"b.B.R.v", "b", .member⟩], 5, 0⟩

/-- A single field of the loose set, which has presence. -/
def looseField (package name : String) (number : Nat) (scalar : Scalar) (defaultValue : Value) :
    Field :=
  { field package name number (.scalar scalar) .single defaultValue with hasPresence := true }

/-- The types that the loose set declares. -/
def looseTypes : Resolved :=
  ⟨[⟨"b.B", ⟨[{ field "b.B." "x" 1 (.scalar .int32) .list (.i32 0) with
        hasPresence := true, oneof := some 0 },
      field "b.B." "m" 2 (.message 1) (.map 1) (.message .empty),
      field "b.B." "d" 3 (.message 2) (.map 2) (.message .empty),
      field "b.B." "e" 4 (.message 3) (.map 3) (.message .empty),
      field "b.B." "r" 5 (.message 4) (.map 4) (.message .empty)],
      by decide, by decide⟩, .empty, ["p"], false⟩,
    ⟨"b.B.M", ⟨[{ looseField "b.B.M." "k" 1 .string (.string "") with oneof := some 0 },
      { looseField "b.B.M." "v" 2 .int32 (.i32 0) with oneof := some 0 }],
      by decide, by decide⟩, .empty, ["o"], true⟩,
    ⟨"b.B.D", ⟨[looseField "b.B.D." "k" 1 .string (.string "k"),
      looseField "b.B.D." "v" 2 .int32 (.i32 0)],
      by decide, by decide⟩, .empty, [], true⟩,
    ⟨"b.B.E", ⟨[looseField "b.B.E." "k" 1 .string (.string ""),
      looseField "b.B.E." "v" 2 .int32 (.i32 0), looseField "b.B.E." "w" 3 .int32 (.i32 0)],
      by decide, by decide⟩, .empty, [], true⟩,
    ⟨"b.B.R", ⟨[field "b.B.R." "k" 1 (.scalar .string) .list (.string ""),
      looseField "b.B.R." "v" 2 .int32 (.i32 0)],
      by decide, by decide⟩, .empty, [], true⟩], [], []⟩

/-- The schema of the loose set. -/
def loose : Schema := ⟨looseTypes.pool, 0⟩

set_option maxRecDepth 1024 in
/-- The schema is loaded from the loose set. -/
theorem ofDescriptorSet_looseSet : Schema.ofDescriptorSet looseSet "b.B" = .ok loose := by
  have hoptions : checkFileOptions looseDefinitions [declaredFile "b" looseMessage none] looseTypes
      (declaredFile "b" looseMessage none) = .ok () :=
    checkFileOptions_of_isPlain rfl rfl rfl rfl
  exact Schema.ofDescriptorSet_eq_ok (by cbv) (by cbv) (by cbv)
    hoptions (by decide) (by cbv)

end Sample

end ColumnarRecords
