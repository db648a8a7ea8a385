import Mathlib
import ColumnarRecords.Proofs.Descriptor.Loading
import ColumnarRecords.Proofs.Descriptor.Sound
import ColumnarRecords.Projection.Selection

/-!
# The order of fields

The fields of a schema are the fields that the message declares, in ascending order of number and
not of declaration; so an index names the field that is at it by number
(`Schema.fields_of_ofDescriptorSet`). The two orders are the same exactly if the message declares
its fields with ascending numbers, and `Sample.backward` is a message that does not.

A field goes into the table of its message at the place of its number, so what the folds over the
declarations keep is that the table holds a permutation of the declarations that went in
(`perm_foldlM_addField`). The types of a pool are those of the declared messages in turn, whatever
else the files declare (`Resolved.declares_ofFiles`).
-/

namespace ColumnarRecords.Descriptor

/-- The number and the name of a field. -/
def Field.label (f : Field) : Int × String := (f.number, f.name)

/-- The number and the name with which a field is declared. -/
def Declaration.Field.label (f : Declaration.Field) : Int × String := (f.number, f.name)

/-- A number that passes the check of field numbers is positive. -/
theorem pos_of_checkNumber {m : Declaration.MessageType} {n : Int}
    (h : checkNumber m n = .ok ()) : 1 ≤ n := by
  unfold checkNumber at h
  split at h
  · cases h
  · rename_i hnumber
    rw [Bool.not_eq_true, Bool.not_eq_false'] at hnumber
    unfold isFieldNumber at hnumber
    simp only [Bool.and_eq_true, decide_eq_true_eq] at hnumber
    exact hnumber.1.1

/-- A number is in a range that a message leaves to extensions. -/
def Declaration.MessageType.LeavesToExtensions (m : Declaration.MessageType) (number : Int) :
    Prop :=
  ∃ r ∈ m.extensionRanges, inRange number r.numbers = true

/-- A field has the number and the name with which it is declared. -/
theorem Scope.label_of_field {s : Scope} {m : Declaration.MessageType} {fullName : String}
    {path : List Nat} {f : Declaration.Field} {field : Field}
    (h : s.field m fullName path f = .ok field) : field.label = f.label := by
  unfold Scope.field at h
  obtain ⟨⟨⟩, hnumber, h⟩ := bind_eq_ok.1 h
  obtain ⟨-, -, h⟩ := bind_eq_ok.1 h
  obtain ⟨target, -, h⟩ := bind_eq_ok.1 h
  obtain ⟨oneof, -, h⟩ := bind_eq_ok.1 h
  obtain ⟨v, -, h⟩ := bind_eq_ok.1 h
  obtain rfl := Except.ok.inj h
  have hpos := pos_of_checkNumber hnumber
  have hcast : ((f.number.toNat : Nat) : Int) = f.number := Int.toNat_of_nonneg (by omega)
  show (((f.number.toNat : Nat) : Int), f.name) = (f.number, f.name)
  rw [hcast]

/-- The number of a field is not one that the message leaves to extensions. -/
theorem Scope.apart_of_field {s : Scope} {m : Declaration.MessageType} {fullName : String}
    {path : List Nat} {f : Declaration.Field} {field : Field}
    (h : s.field m fullName path f = .ok field) : ¬m.LeavesToExtensions field.number := by
  have hlabel := label_of_field h
  have hnumber : (field.number : Int) = f.number := congrArg Prod.fst hlabel
  unfold Scope.field at h
  obtain ⟨-, -, h⟩ := bind_eq_ok.1 h
  obtain ⟨⟨⟩, hcheck, -⟩ := bind_eq_ok.1 h
  unfold checkNotExtension at hcheck
  split at hcheck
  · cases hcheck
  · rename_i hnone
    rintro ⟨r, hr, hin⟩
    rw [hnumber] at hin
    exact absurd hin (List.find?_eq_none.1 hnone r hr)

/-- A type is what a message declared under a full name stands for. -/
structure Declares (d : String × Declaration.MessageType) (t : MessageType) : Prop where
  /-- The type has the full name. -/
  fullName : t.fullName = d.1
  /-- Its fields are those that the message declares, in some order. -/
  perm : (t.fields.toList.map Field.label).Perm (d.2.fields.map Declaration.Field.label)
  /-- None of them has a number that the message leaves to extensions. -/
  apart : ∀ f ∈ t.fields.toList, ¬d.2.LeavesToExtensions f.number

/-- Fields made from declarations and added to a table one after another are there beside the
others. -/
theorem perm_foldlM_addField {α : Type} (declared : α → Declaration.Field)
    {make : α → Except Fault Field}
    (hmake : ∀ a field, make a = .ok field → field.label = (declared a).label) {l : List α}
    {table after : FieldTable}
    (h : l.foldlM (fun table a => do addField table (declared a) (← make a)) table = .ok after) :
    (after.toList.map Field.label).Perm
      (l.map (fun a => (declared a).label) ++ table.toList.map Field.label) := by
  induction l generalizing table with
  | nil =>
    obtain rfl := Except.ok.inj h
    exact .refl _
  | cons a rest ih =>
    rw [List.foldlM_cons] at h
    obtain ⟨between, hstep, hrest⟩ := bind_eq_ok.1 h
    obtain ⟨field, hfield, hadd⟩ := bind_eq_ok.1 hstep
    -- The new field is at the front up to order, in the middle of the declarations' labels.
    have hone := (perm_addField hadd).map Field.label
    rw [List.map_cons, hmake a field hfield] at hone
    exact ((ih hrest).trans (hone.append_left _)).trans List.perm_middle

/-- The type that a declaration of a message stands for has the declared fields. -/
theorem Scope.declares_of_message {s : Scope} {fullName : String} {path : List Nat}
    {m : Declaration.MessageType} {t : MessageType} (h : s.message fullName path m = .ok t) :
    Declares (fullName, m) t := by
  unfold Scope.message at h
  obtain ⟨fields, hfields, h⟩ := bind_eq_ok.1 h
  obtain rfl := Except.ok.inj h
  have hperm := perm_foldlM_addField Prod.fst (fun e field => label_of_field) hfields
  have hlabels : m.fields.zipIdx.map (Declaration.Field.label ∘ Prod.fst) =
      m.fields.map Declaration.Field.label := by
    rw [← List.map_map, List.zipIdx_map_fst]
  refine ⟨rfl, hperm.trans (.of_eq ((List.append_nil _).trans hlabels)), ?_⟩
  refine foldlM_invariant
    (I := fun table : FieldTable => ∀ f ∈ table.toList, ¬m.LeavesToExtensions f.number)
    ?_ (fun _ hf => absurd hf List.not_mem_nil) hfields
  intro table e after hapart hstep g hg
  obtain ⟨field, hfield, hadd⟩ := bind_eq_ok.1 hstep
  rcases List.mem_cons.1 ((perm_addField hadd).mem_iff.1 hg) with rfl | hg
  · exact apart_of_field hfield
  · exact hapart g hg

/-- The message that an item declares, with its full name. -/
def Item.message? (item : Item) : Option (String × Declaration.MessageType) :=
  match item.subject with
  | .message m => some (item.fullName, m)
  | _ => none

/-- The messages that files declare, each with its full name, in the order of declaration. -/
def declaredMessages (files : List Declaration.File) : List (String × Declaration.MessageType) :=
  files.flatMap fun f => f.items.filterMap Item.message?

namespace Resolved

/-- Messages add the types that they stand for to those that are there. -/
def Extends (declared : List (String × Declaration.MessageType)) (r r' : Resolved) : Prop :=
  ∃ new, r'.messages = r.messages ++ new ∧ List.Forall₂ Declares declared new

/-- No message adds nothing. -/
theorem Extends.refl (r : Resolved) : Extends [] r r :=
  ⟨[], (List.append_nil _).symm, .nil⟩

/-- Messages and those after them add their types in turn. -/
theorem Extends.trans {declared declared' : List (String × Declaration.MessageType)}
    {r r' r'' : Resolved} (h : Extends declared r r') (h' : Extends declared' r' r'') :
    Extends (declared ++ declared') r r'' := by
  obtain ⟨new, hnew, hdeclares⟩ := h
  obtain ⟨new', hnew', hdeclares'⟩ := h'
  refine ⟨new ++ new', ?_, List.rel_append hdeclares hdeclares'⟩
  rw [hnew', hnew, List.append_assoc]

/-- An item adds the type of the message that it declares, if it declares one. -/
theorem extends_of_addItem {s : Scope} {r r' : Resolved} {item : Item}
    (h : addItem s r item = .ok r') : Extends item.message?.toList r r' := by
  unfold addItem at h
  unfold Item.message?
  split at h
  case h_1 m hsubject =>
    obtain ⟨t, ht, h⟩ := bind_eq_ok.1 h
    obtain rfl := Except.ok.inj h
    rw [hsubject]
    exact ⟨[t], rfl, .cons (Scope.declares_of_message ht) .nil⟩
  all_goals
    -- Nothing else changes the message types.
    rename_i hsubject
    rw [hsubject]
    first
      | obtain ⟨_, -, h⟩ := bind_eq_ok.1 h
        obtain rfl := Except.ok.inj h
        exact .refl _
      | obtain rfl := Except.ok.inj h
        exact .refl _

/-- Items add the types of the messages among them. -/
theorem extends_of_foldlM_addItem {s : Scope} {items : List Item} {r r' : Resolved}
    (h : items.foldlM (addItem s) r = .ok r') : Extends (items.filterMap Item.message?) r r' := by
  induction items generalizing r with
  | nil =>
    obtain rfl := Except.ok.inj h
    exact .refl _
  | cons item rest ih =>
    rw [List.foldlM_cons] at h
    obtain ⟨between, hstep, hrest⟩ := bind_eq_ok.1 h
    have hboth := (extends_of_addItem hstep).trans (ih hrest)
    cases hitem : item.message? with
    | none =>
      rw [hitem] at hboth
      rw [List.filterMap_cons_none hitem]
      exact hboth
    | some d =>
      rw [hitem] at hboth
      rw [List.filterMap_cons_some hitem]
      exact hboth

/-- Files add the types of the messages that they declare. -/
theorem extends_of_foldlM_addFile {definitions : Definitions} {all files : List Declaration.File}
    {r r' : Resolved} (h : files.foldlM (addFile definitions all) r = .ok r') :
    Extends (declaredMessages files) r r' := by
  induction files generalizing r with
  | nil =>
    obtain rfl := Except.ok.inj h
    exact .refl _
  | cons f rest ih =>
    rw [List.foldlM_cons] at h
    obtain ⟨between, hstep, hrest⟩ := bind_eq_ok.1 h
    unfold addFile at hstep
    obtain ⟨-, -, hstep⟩ := bind_eq_ok.1 hstep
    obtain ⟨dialect, -, hstep⟩ := bind_eq_ok.1 hstep
    exact (extends_of_foldlM_addItem hstep).trans (ih hrest)

/-- The extensions of the type at a position. -/
def extensionsOf (r : Resolved) (i : Nat) : List Field :=
  r.extensions.filterMap fun x => if x.1 = i then some x.2 else none

/-- The type at a position of a pool is the one resolved there, with the extensions that extend
it. -/
theorem getElem?_messages_pool {r : Resolved} {i : Nat} {t : MessageType}
    (ht : r.pool.messages[i]? = some t) :
    ∃ u, r.messages[i]? = some u ∧
      t = { u with extensions := u.extensions.insertAll (r.extensionsOf i) } := by
  unfold pool at ht
  rw [List.getElem?_map, Option.map_eq_some_iff] at ht
  obtain ⟨⟨u, j⟩, hu, rfl⟩ := ht
  rw [List.getElem?_zipIdx, Option.map_eq_some_iff] at hu
  obtain ⟨u', hu, hpair⟩ := hu
  obtain ⟨rfl, rfl⟩ := Prod.mk.inj hpair
  refine ⟨_, hu, ?_⟩
  rw [Nat.zero_add]
  rfl

/-- The type at a position of a pool is that of the message declared at this position. -/
theorem declares_of_getElem? {definitions : Definitions} {files : List Declaration.File}
    {r : Resolved} (h : ofFiles definitions files = .ok r) {i : Nat} {t : MessageType}
    (ht : r.pool.messages[i]? = some t) :
    ∃ d, (declaredMessages files)[i]? = some d ∧ Declares d t := by
  obtain ⟨new, hnew, hdeclares⟩ := extends_of_foldlM_addFile h
  have hmessages : r.messages = new := hnew.trans (List.nil_append new)
  rw [← hmessages] at hdeclares
  -- The extensions that the pool adds are no fields.
  obtain ⟨u, hu, rfl⟩ := getElem?_messages_pool ht
  obtain ⟨hi, rfl⟩ := List.getElem?_eq_some_iff.1 hu
  have hi' : i < (declaredMessages files).length := hdeclares.length_eq ▸ hi
  have hsame := hdeclares.get hi' hi
  exact ⟨_, List.getElem?_eq_getElem hi', hsame.fullName, hsame.perm, hsame.apart⟩

end Resolved

/-- The type at a position of a pool from a descriptor set is that of the message declared at this
position. -/
theorem Pool.declares_of_decode {bytes : List UInt8} {p : Pool} (h : decode bytes = .ok p) {i : Nat}
    {t : MessageType} (ht : p.messages[i]? = some t) :
    ∃ files d, Declaration.decodeFiles bytes = .ok files ∧ (declaredMessages files)[i]? = some d ∧
      Declares d t := by
  unfold decode at h
  split at h
  · cases h
  · rename_i files hfiles
    unfold ofFiles at h
    obtain ⟨definitions, -, h⟩ := bind_eq_ok.1 h
    obtain ⟨r, hr, h⟩ := bind_eq_ok.1 h
    obtain ⟨-, -, h⟩ := bind_eq_ok.1 h
    obtain rfl := Except.ok.inj h
    obtain ⟨d, hd, hdeclares⟩ := Resolved.declares_of_getElem? hr ht
    exact ⟨files, d, hfiles, hd, hdeclares⟩

end ColumnarRecords.Descriptor

namespace ColumnarRecords

open Descriptor

namespace Schema

/-- The type of a schema from a descriptor set is that of a message that the set declares under the
name asked for. -/
theorem declares_of_ofDescriptorSet {bytes : List UInt8} {name : String} {s : Schema}
    (h : ofDescriptorSet bytes name = .ok s) :
    ∃ files m, Declaration.decodeFiles bytes = .ok files ∧
      (declaredMessages files)[s.index]? = some (s.fullName, m) ∧
      s.fullName = String.ofList (name.toList.dropWhile (· = '.')) ∧
      Declares (s.fullName, m) s.type := by
  unfold ofDescriptorSet at h
  split at h
  · cases h
  · rename_i pool hpool
    simp only [ofPool] at h
    split at h
    · cases h
    · rename_i index hindex
      obtain rfl := Except.ok.inj h
      unfold Pool.findMessage? at hindex
      obtain ⟨hlt, hname, -⟩ := List.findIdx?_eq_some_iff_getElem.1 hindex
      have hget : pool.messages[index]? = some pool.messages[index] := List.getElem?_eq_getElem hlt
      have htype : (⟨pool, index⟩ : Schema).type = pool.messages[index] := by
        show pool.message index = _
        rw [Pool.message, hget, Option.getD_some]
      obtain ⟨files, d, hfiles, hd, hdeclares⟩ := Pool.declares_of_decode hpool hget
      have hfull : (⟨pool, index⟩ : Schema).fullName = d.1 := by
        rw [fullName, htype, hdeclares.fullName]
      rw [← htype] at hname hdeclares
      refine ⟨files, d.2, hfiles, ?_, eq_of_beq hname, ?_⟩
      · rw [hfull]
        exact hd
      · rw [hfull]
        exact hdeclares

/-- The fields ascend by number. -/
theorem pairwise_fields (s : Schema) : s.fields.Pairwise fun a b => a.number < b.number :=
  s.type.fields.ascending

/-- An index selects the field that is at it. -/
theorem resolve_singleton {s : Schema} {i : UInt64} {f : Field} (h : s.field? i.toNat = some f) :
    Selection.resolve s (.indices [i]) = .ok [f.number] := by
  have hnumber : Selection.numberAt s i = .ok f.number := by
    rw [Selection.numberAt, h]
  have hall : [i].mapM (Selection.numberAt s) = .ok [f.number] := by
    rw [List.mapM_cons, hnumber]
    rfl
  show ([i].mapM (Selection.numberAt s)).map List.eraseDups = .ok [f.number]
  rw [hall]
  rfl

/-- The labels of fields with ascending numbers are in one order only. -/
theorem labels_eq_of_pairwise {l l' : List (Int × String)} (hl : l.Pairwise fun a b => a.1 < b.1)
    (hl' : l'.Pairwise fun a b => a.1 < b.1) (h : l.Perm l') : l = l' := by
  refine List.Perm.eq_of_pairwise (fun a b _ _ hab hba => ?_) hl hl' h
  have hlt : a.1 < a.1 := hab.trans hba
  exact absurd hlt (lt_irrefl _)

/-- The fields of a schema from a descriptor set are those that the message declares, in ascending
order of number. That is the order of declaration exactly if the declared numbers ascend, and an
index selects the field of which the number is at it among the declared ones in order. -/
theorem fields_of_ofDescriptorSet {bytes : List UInt8} {name : String} {s : Schema}
    (h : ofDescriptorSet bytes name = .ok s) :
    ∃ files m, Declaration.decodeFiles bytes = .ok files ∧
      (declaredMessages files)[s.index]? = some (s.fullName, m) ∧
      s.fullName = String.ofList (name.toList.dropWhile (· = '.')) ∧
      (s.fields.map Field.label).Perm (m.fields.map Declaration.Field.label) ∧
      (s.fields.Pairwise fun a b => a.number < b.number) ∧
      (s.fields.map Field.label = m.fields.map Declaration.Field.label ↔
        m.fields.Pairwise fun a b => a.number < b.number) ∧
      ∀ i : UInt64, i.toNat < s.fieldCount → ∃ f, s.field? i.toNat = some f ∧
        Selection.resolve s (.indices [i]) = .ok [f.number] ∧
        ((m.fields.map Declaration.Field.number).mergeSort)[i.toNat]? = some (f.number : Int) := by
  obtain ⟨files, m, hfiles, hdeclared, hname, hdeclares⟩ := declares_of_ofDescriptorSet h
  have hperm : (s.fields.map Field.label).Perm (m.fields.map Declaration.Field.label) :=
    hdeclares.perm
  have hascending : (s.fields.map Field.label).Pairwise fun a b => a.1 < b.1 := by
    rw [List.pairwise_map]
    exact s.pairwise_fields.imp fun hab => Int.ofNat_lt.2 hab
  refine ⟨files, m, hfiles, hdeclared, hname, hperm, s.pairwise_fields, ⟨?_, ?_⟩, ?_⟩
  · intro hsame
    rw [hsame, List.pairwise_map] at hascending
    exact hascending
  · intro hsorted
    exact labels_eq_of_pairwise hascending (List.pairwise_map.2 hsorted) hperm
  · intro i hi
    have hfield : s.field? i.toNat = some s.fields[i.toNat] := List.getElem?_eq_getElem hi
    refine ⟨_, hfield, resolve_singleton hfield, ?_⟩
    -- The numbers of the fields are the declared ones, and they are in order.
    have hnumbers : (s.fields.map fun f => (f.number : Int)).Perm
        (m.fields.map Declaration.Field.number) := by
      have hfst := hperm.map Prod.fst
      rw [List.map_map, List.map_map] at hfst
      exact hfst
    have hordered : (s.fields.map fun f => (f.number : Int)).Pairwise (· ≤ ·) := by
      rw [List.pairwise_map]
      exact s.pairwise_fields.imp fun hab => (Int.ofNat_lt.2 hab).le
    -- Two sorted permutations of one list are the same.
    have hsort : (m.fields.map Declaration.Field.number).mergeSort =
        s.fields.map fun f => (f.number : Int) := by
      refine List.Perm.eq_of_pairwise' (r := (· ≤ ·)) ?_ hordered
        ((List.mergeSort_perm _ _).trans hnumbers.symm)
      have hsorted : ((m.fields.map Declaration.Field.number).mergeSort).Pairwise
          fun a b => decide (a ≤ b) = true :=
        List.pairwise_mergeSort (by simpa using fun a b c => Int.le_trans)
          (by simpa using Int.le_total) _
      simpa using hsorted
    rw [hsort, List.getElem?_map, List.getElem?_eq_getElem hi, Option.map_some]

end Schema

namespace Sample

/-- The backward message, as declared: the field numbered 2 comes before the one numbered 1. -/
def backwardMessage : Declaration.MessageType :=
  declaredMessage "D" [declared "b" 2 false ⟨9, ""⟩ none none,
    declared "a" 1 false ⟨5, ""⟩ none none] [] []

/-- The backward set: a message whose fields are declared with descending numbers. -/
def backwardSet : List UInt8 :=
  [10, 41, 10, 1, 100, 18, 1, 100, 34, 25, 10, 1, 68, 18, 9, 10, 1, 98, 24, 2, 32, 1, 40, 9, 18, 9,
    10, 1, 97, 24, 1, 32, 1, 40, 5, 98, 6, 112, 114, 111, 116, 111, 51]

/-- The names that the backward set defines. -/
def backwardDefinitions : Definitions :=
  ⟨[⟨"d", "d", .package⟩, ⟨"d.D", "d", .message 0 backwardMessage⟩, ⟨"d.D.b", "d", .member⟩,
    ⟨"d.D.a", "d", .member⟩], 1, 0⟩

/-- The types that the backward set declares. -/
def backwardTypes : Resolved :=
  ⟨[⟨"d.D", ⟨[field "d.D." "a" 1 (.scalar .int32) .single (.i32 0),
      field "d.D." "b" 2 (.scalar .string) .single (.string "")],
      by decide, by decide⟩, .empty, [], false⟩], [], []⟩

/-- The schema of the backward set. -/
def backward : Schema := ⟨backwardTypes.pool, 0⟩

/-- The schema is loaded from the backward set. -/
theorem ofDescriptorSet_backwardSet :
    Schema.ofDescriptorSet backwardSet "d.D" = .ok backward := by
  have hoptions : checkFileOptions backwardDefinitions [declaredFile "d" backwardMessage
      (some "proto3")] backwardTypes (declaredFile "d" backwardMessage (some "proto3")) = .ok () :=
    checkFileOptions_of_isPlain rfl rfl rfl rfl
  exact Schema.ofDescriptorSet_eq_ok (by cbv) (by cbv) (by cbv)
    hoptions (by decide) (by cbv)

/-- The files of the backward set. -/
theorem decodeFiles_backwardSet : Declaration.decodeFiles backwardSet =
    .ok [declaredFile "d" backwardMessage (some "proto3")] := by
  cbv

end Sample

namespace Schema

/-- The message of the backward set declares the field numbered 2 first, and index 0 selects the
other. -/
theorem resolve_backward :
    ∃ s files m, ofDescriptorSet Sample.backwardSet "d.D" = .ok s ∧
      Declaration.decodeFiles Sample.backwardSet = .ok files ∧
      (declaredMessages files)[s.index]? = some ("d.D", m) ∧
      m.fields.map Declaration.Field.label = [(2, "b"), (1, "a")] ∧
      s.fields.map Field.label = [(1, "a"), (2, "b")] ∧
      Selection.resolve s (.indices [0]) = .ok [1] :=
  ⟨Sample.backward, _, Sample.backwardMessage, Sample.ofDescriptorSet_backwardSet,
    Sample.decodeFiles_backwardSet, rfl, rfl, rfl, rfl⟩

/-- An index of the backward message selects the field of which the number is at it in order. -/
theorem fields_backward :
    ofDescriptorSet Sample.backwardSet "d.D" = .ok Sample.backward ∧
      ∃ f, Sample.backward.field? 0 = some f ∧
        Selection.resolve Sample.backward (.indices [0]) = .ok [f.number] ∧
        (([2, 1] : List Int).mergeSort)[0]? = some (f.number : Int) := by
  refine ⟨Sample.ofDescriptorSet_backwardSet, ?_⟩
  obtain ⟨files, m, hfiles, hdeclared, -, -, -, -, hindex⟩ :=
    fields_of_ofDescriptorSet Sample.ofDescriptorSet_backwardSet
  rw [Sample.decodeFiles_backwardSet] at hfiles
  obtain rfl := Except.ok.inj hfiles
  have hm : m = Sample.backwardMessage := by
    have hdeclared' : (declaredMessages [Sample.declaredFile "d" Sample.backwardMessage
        (some "proto3")])[0]? = some ("d.D", Sample.backwardMessage) := rfl
    exact (Prod.mk.inj (Option.some.inj (hdeclared.symm.trans hdeclared'))).2
  rw [hm] at hindex
  exact hindex 0 (by decide)

end Schema

end ColumnarRecords
