import Mathlib
import ColumnarRecords.Proofs.Settings.Check
import ColumnarRecords.Proofs.Toml.Distinct

/-!
# Layers of settings

A layer gives some parts of the reader's settings, and each part that it gives takes the place of
the one below it (`Settings.Layer.onto`). `Settings.load_of_layers` says that loading is this: the
environment over the file over the default settings.

What all settings hold of the reader is followed through the layers (`Settings.Holds`): an entry of
a file or a variable either leads elsewhere (`Settings.Holds.elsewhere`), or is the table of the
reader in the file (`Settings.Holds.reader`), or gives one part (`Settings.Holds.assigned`).
-/

namespace ColumnarRecords

namespace Setting

/-- A lookup in a table with an entry in front. -/
theorem find?_table_cons (name n : String) (s : Setting) (rest : List (String × Setting)) :
    (table ((name, s) :: rest)).find? n = if name = n then some s else (table rest).find? n := by
  by_cases h : name = n <;> simp [find?, h]

/-- A name that no entry has is not found. -/
theorem find?_table_eq_none {entries : List (String × Setting)} {n : String}
    (h : n ∉ entries.map Prod.fst) : (table entries).find? n = none := by
  refine Option.map_eq_none_iff.2 (List.find?_eq_none.2 fun e he heq => h ?_)
  exact List.mem_map.2 ⟨e, he, beq_iff_eq.1 heq⟩

/-- A table laid over a setting has its entries laid over those of the setting, provided that it has
no name twice. -/
theorem find?_mergeEntries {entries : List (String × Setting)}
    (hnames : (entries.map Prod.fst).Nodup) (n : String) (below : Setting) :
    (mergeEntries entries below).find? n =
      match (table entries).find? n with
      | some s => some (merge s ((below.find? n).getD unset))
      | none => below.find? n := by
  induction entries generalizing below with
  | nil => rfl
  | cons e rest ih =>
    obtain ⟨k, s⟩ := e
    obtain ⟨hnew, hrest⟩ := List.nodup_cons.1 hnames
    rw [mergeEntries, ih hrest, find?_updateKey, find?_table_cons]
    by_cases hn : n = k
    · -- The name comes once, so that nothing after the entry changes what it gives.
      subst hn
      rw [find?_table_eq_none hnew, if_pos rfl, if_pos rfl]
    · rw [if_neg hn, if_neg (Ne.symm hn)]

/-- A table with entries laid over it is one. -/
theorem exists_mergeEntries_eq_table (entries inner : List (String × Setting)) :
    ∃ merged, mergeEntries entries (table inner) = table merged := by
  induction entries generalizing inner with
  | nil => exact ⟨inner, rfl⟩
  | cons e rest ih =>
    rw [mergeEntries]
    exact ih _

/-- What a variable is that spells a number below the bound of signed words. -/
theorem ofVariable_of_spells {value : String} {n : Nat}
    (h : Text.Numeral.Spells value.toList n) (hn : n < 2 ^ 63) : ofVariable value = .int n := by
  have hint : Text.Numeral.readInt 10 (2 ^ 63 - 1) value.toList = .ok n := h.readInt (by omega)
  have hbool : ∀ b : Bool, String.ofList (value.toList.map Char.toLower) ≠ toString b := by
    intro b hb
    have hmem : 'e' ∈ value.toList.map Char.toLower := by
      rw [← String.toList_ofList (l := value.toList.map Char.toLower), hb]
      cases b <;> decide
    obtain ⟨c, hc, hlower⟩ := List.mem_map.1 hmem
    obtain hdigit | rfl := h.isDigit_or c hc
    · have hpart := (Settings.isDirectivePart_of_isDigit hdigit).1
      rw [Settings.toLower_of_isDirectivePart hpart] at hlower
      subst hlower
      exact absurd hdigit (by decide)
    · exact absurd hlower (by decide)
  have htrue : String.ofList (value.toList.map Char.toLower) ≠ "true" := hbool true
  have hfalse : String.ofList (value.toList.map Char.toLower) ≠ "false" := hbool false
  simp only [ofVariable, htrue, hfalse, hint, if_false]

end Setting

namespace Settings

open Setting (Spares readPath variablePath? ofVariable)

/-! ## Parts -/

/-- A part of the reader's settings. -/
inductive Part where
  /-- The directive that selects fields. -/
  | requiredFields
  /-- The number of rows in a batch. -/
  | batchSize
  /-- The first row group. -/
  | startRowGroup
  /-- The number of row groups. -/
  | totalRowGroups
deriving DecidableEq

namespace Part

/-- Its name among the reader's settings. -/
def name : Part → String
  | requiredFields => "required_fields"
  | batchSize => "batch_size"
  | startRowGroup => "start_row_group"
  | totalRowGroups => "total_row_groups"

/-- The name of its variable. -/
def variableName : Part → String
  | requiredFields => "COLPROTO_READER__REQUIRED_FIELDS"
  | batchSize => "COLPROTO_READER__BATCH_SIZE"
  | startRowGroup => "COLPROTO_READER__START_ROW_GROUP"
  | totalRowGroups => "COLPROTO_READER__TOTAL_ROW_GROUPS"

/-- The text of its path. -/
def path (p : Part) : String := "reader." ++ p.name

/-- Parts have different names. -/
theorem name_injective : Function.Injective name := by
  intro p q h
  cases p <;> cases q <;> first | rfl | exact absurd h (by decide)

/-- Parts have different variables. -/
theorem variableName_injective : Function.Injective variableName := by
  intro p q h
  cases p <;> cases q <;> first | rfl | exact absurd h (by decide)

/-- The variable of a part gives the setting at its path. -/
theorem variablePath?_variableName (p : Part) : variablePath? p.variableName = some p.path := by
  cases p <;> decide +kernel

/-- The path of a part leads to it. -/
theorem readPath_path (p : Part) : readPath p.path = [.key "reader", .key p.name] := by
  cases p <;> decide +kernel

end Part

/-- The setting of a part. -/
def part (s : Settings) : Part → Setting
  | .requiredFields => .text s.requiredFields
  | .batchSize => .int s.batchSize
  | .startRowGroup => .int s.startRowGroup
  | .totalRowGroups => .int s.totalRowGroups

/-! ## Layers -/

/-- The parts of the reader's settings that a layer gives. -/
structure Layer where
  /-- The directive that selects fields. -/
  requiredFields : Option String := none
  /-- The number of rows in a batch. -/
  batchSize : Option Nat := none
  /-- The first row group. -/
  startRowGroup : Option Nat := none
  /-- The number of row groups. -/
  totalRowGroups : Option Nat := none
deriving DecidableEq

namespace Layer

/-- Settings with a layer over them: each part is the one of the layer, or else what it was. -/
def onto (layer : Layer) (below : Settings) : Settings where
  requiredFields := layer.requiredFields.getD below.requiredFields
  batchSize := layer.batchSize.getD below.batchSize
  startRowGroup := layer.startRowGroup.getD below.startRowGroup
  totalRowGroups := layer.totalRowGroups.getD below.totalRowGroups

/-- The setting of a part, if the layer gives it. -/
def part? (layer : Layer) : Part → Option Setting
  | .requiredFields => layer.requiredFields.map .text
  | .batchSize => layer.batchSize.map fun n => .int n
  | .startRowGroup => layer.startRowGroup.map fun n => .int n
  | .totalRowGroups => layer.totalRowGroups.map fun n => .int n

/-- The setting of a part with a layer over others. -/
theorem part_onto (layer : Layer) (below : Settings) :
    (layer.onto below).part = fun p => (layer.part? p).getD (below.part p) := by
  obtain ⟨requiredFields, batchSize, startRowGroup, totalRowGroups⟩ := layer
  funext p
  cases p with
  | requiredFields => cases requiredFields <;> rfl
  | batchSize => cases batchSize <;> rfl
  | startRowGroup => cases startRowGroup <;> rfl
  | totalRowGroups => cases totalRowGroups <;> rfl

/-- What a layer gives takes the place of anything. -/
theorem merge_of_part? {layer : Layer} {p : Part} {v : Setting} (h : layer.part? p = some v)
    (old : Setting) : Setting.merge v old = v := by
  cases p <;> obtain ⟨_, -, rfl⟩ := Option.map_eq_some_iff.1 h <;> rfl

end Layer

/-! ## What all settings hold of the reader -/

/-- All settings hold these of the reader, by the names of the parts. -/
structure Holds (all : Setting) (parts : Part → Setting) : Prop where
  /-- The reader's settings have names. -/
  table : ∃ entries, all.find? "reader" = some (.table entries)
  /-- The parts are there. -/
  there : ∀ p : Part, all.readerPart? p.name = some (parts p)

/-- A path that leads to no part of the reader's settings, and to nothing that holds one. -/
def LeadsElsewhere (path : String) : Prop := ∀ p : Part, Spares p.name (readPath path)

/-- The entries of a file other than the reader lead elsewhere. -/
def OtherEntriesLeadElsewhere (entries : List (String × Setting)) : Prop :=
  ∀ e ∈ entries, e.1 ≠ "reader" → LeadsElsewhere e.1

/-- The variables of an environment other than those of the parts lead elsewhere. -/
def OtherVariablesLeadElsewhere (env : Environment) : Prop :=
  ∀ e ∈ env, (∀ p : Part, e.1 ≠ p.variableName) →
    ∀ path, variablePath? e.1 = some path → LeadsElsewhere path

variable {all : Setting} {parts : Part → Setting}

/-- The settings of the reader are the ones that are held. -/
theorem Holds.ofSetting? {s : Settings} (h : Holds all s.part) : ofSetting? all = some s := by
  obtain ⟨entries, hentries⟩ := h.table
  have hparts : Settings.ofSetting? all = ofParts? fun name _ => all.readerPart? name := by
    simp only [Settings.ofSetting?, Setting.readerPart?, hentries, readOr, ofReader?,
      Option.bind_some]
  have hfields : all.readerPart? "required_fields" = some (.text s.requiredFields) :=
    h.there .requiredFields
  have hbatch : all.readerPart? "batch_size" = some (.int s.batchSize) := h.there .batchSize
  have hstart : all.readerPart? "start_row_group" = some (.int s.startRowGroup) :=
    h.there .startRowGroup
  have htotal : all.readerPart? "total_row_groups" = some (.int s.totalRowGroups) :=
    h.there .totalRowGroups
  rw [hparts, ofParts?, hfields, hbatch, hstart, htotal]
  simp [readOr, Setting.text?, Setting.count?]

/-- The default settings are held before a file is looked at. -/
theorem holds_default :
    Holds (defaultEntries.foldl (fun s e => Setting.assign e.1 e.2 s) (.table []))
      default.part := by
  have hfields : readPath "reader.required_fields" = [.key "reader", .key "required_fields"] :=
    Part.readPath_path .requiredFields
  have hbatch : readPath "reader.batch_size" = [.key "reader", .key "batch_size"] :=
    Part.readPath_path .batchSize
  have hstart : readPath "reader.start_row_group" = [.key "reader", .key "start_row_group"] :=
    Part.readPath_path .startRowGroup
  have htotal : readPath "reader.total_row_groups" = [.key "reader", .key "total_row_groups"] :=
    Part.readPath_path .totalRowGroups
  simp only [defaultEntries, List.foldl_cons, List.foldl_nil, Setting.assign, hfields, hbatch,
    hstart, htotal]
  refine ⟨⟨_, rfl⟩, fun p => ?_⟩
  cases p <;> rfl

/-- What leads elsewhere changes nothing of the reader's. -/
theorem Holds.elsewhere (h : Holds all parts) {path : String} (hpath : LeadsElsewhere path)
    (s : Setting) : Holds (Setting.assign path s all) parts := by
  have hcarries : ∀ p : Part, Setting.Carries p.name (parts p) (Setting.assign path s all)
      (Setting.assign path s all) := fun p =>
    Setting.Carries.updated ⟨h.table, h.there p, fun _ _ => rfl⟩ (hpath p) (Setting.merge s)
  exact ⟨(hcarries .batchSize).table, fun p => (hcarries p).there⟩

/-- A setting at the path of a part takes the place of the part. -/
theorem Holds.assigned (h : Holds all parts) (q : Part) {v : Setting}
    (hv : ∀ old, Setting.merge v old = v) :
    Holds (Setting.assign q.path v all) (Function.update parts q v) := by
  have hcarries := Setting.Carries.of_assign q.readPath_path hv all
  refine ⟨hcarries.table, fun p => ?_⟩
  by_cases hp : p = q
  · subst hp
    rw [hcarries.there, Function.update_self]
  · rw [hcarries.others p.name (Part.name_injective.ne hp), h.there, Function.update_of_ne hp]

/-- The table of the reader replaces the parts that it has. -/
theorem Holds.reader (h : Holds all parts) {entries : List (String × Setting)}
    (hnames : (entries.map Prod.fst).Nodup)
    (hplain : ∀ (p : Part) v, (Setting.table entries).find? p.name = some v →
      ∀ old, Setting.merge v old = v) :
    Holds (Setting.assign "reader" (.table entries) all)
      fun p => ((Setting.table entries).find? p.name).getD (parts p) := by
  obtain ⟨inner, hinner⟩ := h.table
  have hpath : readPath "reader" = [.key "reader"] := by decide +kernel
  have hreader : (Setting.assign "reader" (.table entries) all).find? "reader" =
      some (Setting.mergeEntries entries (.table inner)) := by
    rw [Setting.assign, hpath]
    simp only [Setting.update, Setting.find?_updateKey, if_pos, hinner, Option.getD_some,
      Setting.merge, Setting.isUnset]
    rfl
  refine ⟨?_, fun p => ?_⟩
  · obtain ⟨merged, hmerged⟩ := Setting.exists_mergeEntries_eq_table entries inner
    exact ⟨merged, hreader.trans (congrArg some hmerged)⟩
  · have hbelow : (Setting.table inner).find? p.name = some (parts p) := by
      have hpart := h.there p
      rwa [Setting.readerPart?, hinner] at hpart
    rw [Setting.readerPart?, hreader, Option.bind_some, Setting.find?_mergeEntries hnames, hbelow]
    cases hfound : (Setting.table entries).find? p.name with
    | none => rfl
    | some v => exact congrArg some (hplain p v hfound _)

/-! ## The entries of a file -/

/-- The entries of a file, of which that of the reader replaces the parts that it has and the others
lead elsewhere. -/
theorem Holds.entries {entries : List (String × Setting)} (hnames : (entries.map Prod.fst).Nodup)
    (hreader : ∀ e ∈ entries, e.1 = "reader" →
      ∃ inner, e.2 = .table inner ∧ (inner.map Prod.fst).Nodup)
    (hothers : OtherEntriesLeadElsewhere entries)
    (hplain : ∀ (p : Part) v, (Setting.table entries).readerPart? p.name = some v →
      ∀ old, Setting.merge v old = v)
    (h : Holds all parts) :
    Holds (entries.foldl (fun s e => Setting.assign e.1 e.2 s) all)
      fun p => ((Setting.table entries).readerPart? p.name).getD (parts p) := by
  induction entries generalizing all parts with
  | nil => exact h
  | cons e rest ih =>
    obtain ⟨name, s⟩ := e
    obtain ⟨hnew, hrest⟩ := List.nodup_cons.1 hnames
    obtain ⟨hreader, hreaderRest⟩ := List.forall_mem_cons.1 hreader
    obtain ⟨hother, hothersRest⟩ := List.forall_mem_cons.1 hothers
    rw [List.foldl_cons]
    by_cases hname : name = "reader"
    · -- The table of the reader: no later entry has its name.
      subst hname
      obtain ⟨inner, rfl, hinner⟩ := hreader rfl
      have hfirst : ∀ n, (Setting.table (("reader", .table inner) :: rest)).readerPart? n =
          (Setting.table inner).find? n := by
        intro n
        rw [Setting.readerPart?, Setting.find?_table_cons, if_pos rfl, Option.bind_some]
      have hlater : ∀ n, (Setting.table rest).readerPart? n = none := by
        intro n
        rw [Setting.readerPart?, Setting.find?_table_eq_none hnew, Option.bind_none]
      simp only [hfirst] at hplain ⊢
      have hfinal := ih hrest hreaderRest hothersRest
        (fun p v hv => absurd (hlater p.name ▸ hv) (by simp)) (h.reader hinner hplain)
      simpa only [hlater, Option.getD_none] using hfinal
    · have hskip : ∀ n, (Setting.table ((name, s) :: rest)).readerPart? n =
          (Setting.table rest).readerPart? n := by
        intro n
        rw [Setting.readerPart?, Setting.find?_table_cons, if_neg hname, Setting.readerPart?]
      simp only [hskip] at hplain ⊢
      exact ih hrest hreaderRest hothersRest hplain (h.elsewhere (hother hname) s)

/-- The entries of a file give a layer: its reader, if there is one, is a table with these parts. -/
structure EntriesGive (entries : List (String × Setting)) (layer : Layer) : Prop where
  /-- The reader is a table. -/
  table : ∀ s, ("reader", s) ∈ entries → ∃ inner, s = .table inner
  /-- The parts are those of the layer. -/
  parts : ∀ p : Part, (Setting.table entries).readerPart? p.name = layer.part? p

/-- What a file has, if one is given: it is a settings file, and its text gives these entries. -/
inductive FileHas (d : Disk) : Option String → List (String × Setting) → Prop
  /-- No file is given. -/
  | none : FileHas d none []
  /-- A file is given, and its text can be read. -/
  | text {path : String} {content : List UInt8} {entries : List (String × Setting)}
    (stored : d.find? path = some (.bytes content)) (name : isFilePath path)
    (text : Toml.settings? (fileText content) = some entries) : FileHas d (some path) entries

/-- No table of a file has a name twice. -/
theorem FileHas.distinct {d : Disk} {path : Option String} {entries : List (String × Setting)}
    (h : FileHas d path entries) : (Setting.table entries).Distinct := by
  cases h with
  | none => exact .table List.nodup_nil fun _ he => absurd he List.not_mem_nil
  | text _ _ htext => exact Toml.distinct_of_settings? htext

/-- Loading lays the layers over each other. -/
theorem FileHas.load_eq {d : Disk} {path : Option String} {entries : List (String × Setting)}
    (h : FileHas d path entries) (env : Environment) : load d path env = ofLayers entries env := by
  cases h with
  | none => rfl
  | text hstored hname htext =>
    simp only [load, fileEntries, hstored, hname, htext, if_true]

/-- A file that gives a layer replaces the parts that the layer has. -/
theorem Holds.file (h : Holds all parts) {d : Disk} {path : Option String}
    {entries : List (String × Setting)} {layer : Layer} (hfile : FileHas d path entries)
    (hgive : EntriesGive entries layer)
    (hothers : OtherEntriesLeadElsewhere entries) :
    Holds (entries.foldl (fun s e => Setting.assign e.1 e.2 s) all)
      fun p => (layer.part? p).getD (parts p) := by
  obtain _ | _ | _ | _ | _ | ⟨hnames, hinner⟩ | _ := hfile.distinct
  have hreader : ∀ e ∈ entries, e.1 = "reader" →
      ∃ inner, e.2 = .table inner ∧ (inner.map Prod.fst).Nodup := by
    rintro ⟨name, s⟩ he rfl
    obtain ⟨inner, rfl⟩ := hgive.table s he
    obtain _ | _ | _ | _ | _ | ⟨hnames, -⟩ | _ := hinner _ he
    exact ⟨inner, rfl, hnames⟩
  have hholds := h.entries hnames hreader hothers fun p v hv =>
    Layer.merge_of_part? ((hgive.parts p).symm.trans hv)
  simpa only [hgive.parts] using hholds

/-! ## The variables of an environment -/

/-- The value of a variable. The last one of its name counts. -/
def valueOf? (name : String) (env : Environment) : Option String :=
  (env.reverse.find? (·.1 == name)).map Prod.snd

/-- The value of a variable after one more. -/
theorem valueOf?_concat (name : String) (env : Environment) (e : String × String) :
    valueOf? name (env ++ [e]) = if e.1 = name then some e.2 else valueOf? name env := by
  rw [valueOf?, List.reverse_concat]
  split_ifs with h
  · rw [List.find?_cons_of_pos (by simp [h])]
    rfl
  · rw [List.find?_cons_of_neg (by simp [h]), valueOf?]

/-- The variables of parts replace these. -/
theorem Holds.withEnvironment (h : Holds all parts) {env : Environment}
    (hothers : OtherVariablesLeadElsewhere env) :
    Holds (all.withEnvironment env)
      fun p => ((valueOf? p.variableName env).map ofVariable).getD (parts p) := by
  induction env using List.reverseRecOn with
  | nil => exact h
  | append_singleton env e ih =>
    have hbefore := ih fun e he => hothers e (List.mem_append_left _ he)
    have hlast := hothers e (List.mem_append_right _ List.mem_cons_self)
    simp only [Setting.withEnvironment_append, valueOf?_concat]
    by_cases hpart : ∃ q : Part, e.1 = q.variableName
    · obtain ⟨q, hq⟩ := hpart
      have hassign : (all.withEnvironment env).withEnvironment [e] =
          Setting.assign q.path (ofVariable e.2) (all.withEnvironment env) := by
        simp only [Setting.withEnvironment, List.foldl_cons, List.foldl_nil, hq,
          Part.variablePath?_variableName]
      rw [hassign]
      have hparts := hbefore.assigned q (Setting.merge_ofVariable e.2)
      convert hparts using 2 with p
      by_cases hp : p = q
      · subst hp
        simp [hq]
      · have hne : q.variableName ≠ p.variableName := Part.variableName_injective.ne (Ne.symm hp)
        rw [Function.update_of_ne hp, hq, if_neg hne]
    · have hnone : ∀ p : Part, e.1 ≠ p.variableName := fun p hp => hpart ⟨p, hp⟩
      simp only [hnone, if_false]
      cases hpath : variablePath? e.1 with
      | none => simpa only [Setting.withEnvironment, List.foldl_cons, List.foldl_nil, hpath]
          using hbefore
      | some path =>
        simpa only [Setting.withEnvironment, List.foldl_cons, List.foldl_nil, hpath]
          using hbefore.elsewhere (hlast hnone path hpath) (ofVariable e.2)

/-- The value of a variable reads as a text: neither as a truth value nor as a number. -/
structure ReadsAsText (value : String) : Prop where
  /-- It is no truth value, in any case of letters. -/
  bool : ∀ b : Bool, String.ofList (value.toList.map Char.toLower) ≠ toString b
  /-- It is no whole number. -/
  int : ∀ n, Text.Numeral.readInt 10 (2 ^ 63 - 1) value.toList ≠ .ok n
  /-- It is no floating point number. -/
  float : Floating.readBits? .binary64 value.toList = none

/-- Such a value is a text. -/
theorem ReadsAsText.ofVariable_eq {value : String} (h : ReadsAsText value) :
    ofVariable value = .text value := by
  obtain ⟨b, -, hb⟩ | ⟨n, -, hn⟩ | ⟨bits, -, hbits⟩ | htext := Setting.ofVariable_cases value
  · exact absurd hb (h.bool b)
  · exact absurd hn (h.int n)
  · rw [h.float] at hbits
    cases hbits
  · exact htext

/-- The value of a variable writes a number in decimal that fits in a signed word. -/
def WritesCount (value : String) (n : Nat) : Prop :=
  Text.Numeral.Spells value.toList n ∧ n < 2 ^ 63

/-- The variables of the parts give a layer: directives that are texts, and numbers in decimal. -/
structure EnvironmentGives (env : Environment) (layer : Layer) : Prop where
  /-- The directive. -/
  requiredFields : Option.Rel (fun value text => value = text ∧ ReadsAsText value)
    (valueOf? Part.requiredFields.variableName env) layer.requiredFields
  /-- The number of rows in a batch. -/
  batchSize : Option.Rel WritesCount (valueOf? Part.batchSize.variableName env) layer.batchSize
  /-- The first row group. -/
  startRowGroup :
    Option.Rel WritesCount (valueOf? Part.startRowGroup.variableName env) layer.startRowGroup
  /-- The number of row groups. -/
  totalRowGroups :
    Option.Rel WritesCount (valueOf? Part.totalRowGroups.variableName env) layer.totalRowGroups

/-- The settings of the variables are those of the layer. -/
theorem EnvironmentGives.part? {env : Environment} {layer : Layer}
    (h : EnvironmentGives env layer) (p : Part) :
    (valueOf? p.variableName env).map ofVariable = layer.part? p := by
  have hcount : ∀ {value : Option String} {n : Option Nat}, Option.Rel WritesCount value n →
      value.map ofVariable = n.map fun n => Setting.int n := by
    intro value n hrel
    obtain ⟨⟨hspells, hlt⟩⟩ | _ := hrel
    · exact congrArg some (Setting.ofVariable_of_spells hspells hlt)
    · rfl
  have htext : ∀ {value text : Option String},
      Option.Rel (fun value text => value = text ∧ ReadsAsText value) value text →
        value.map ofVariable = text.map Setting.text := by
    intro value text hrel
    obtain ⟨rfl, hreads⟩ | _ := hrel
    · exact congrArg some hreads.ofVariable_eq
    · rfl
  cases p with
  | requiredFields => exact htext h.requiredFields
  | batchSize => exact hcount h.batchSize
  | startRowGroup => exact hcount h.startRowGroup
  | totalRowGroups => exact hcount h.totalRowGroups

/-! ## Loading -/

/-- Loading gives each part as the environment has it, or else as the file has it, or else as it is
by default, whatever the other parts are. Other entries and variables must lead elsewhere. -/
theorem load_of_layers {d : Disk} {path : Option String} {env : Environment}
    {entries : List (String × Setting)} {file environment : Layer}
    (hfile : FileHas d path entries) (hentries : EntriesGive entries file)
    (hothers : OtherEntriesLeadElsewhere entries)
    (henv : EnvironmentGives env environment) (hvariables : OtherVariablesLeadElsewhere env) :
    load d path env = .ok (environment.onto (file.onto default)) := by
  have hholds : Holds (layered entries env) (environment.onto (file.onto default)).part := by
    rw [layered, List.foldl_append, Layer.part_onto, Layer.part_onto]
    simpa only [henv.part?] using
      (holds_default.file hfile hentries hothers).withEnvironment hvariables
  rw [hfile.load_eq, ofLayers, hholds.ofSetting?]

/-- A disk with one settings file. -/
def diskOf (text : String) : Disk := ⟨[("c.toml", .bytes (Text.Utf8.encode text))]⟩

/-- A file with two parts of the reader, and something else. -/
def twoParts : String := "version = 2\n[reader]\nbatch_size = 64\nstart_row_group = 5\n"

/-- Its entries. -/
def twoPartEntries : List (String × Setting) :=
  [("version", .int 2), ("reader", .table [("batch_size", .int 64), ("start_row_group", .int 5)])]

/-- The file is read. -/
theorem fileHas_twoParts : FileHas (diskOf twoParts) (some "c.toml") twoPartEntries := by
  refine .text rfl (by decide +kernel) ?_
  have htext : fileText (Text.Utf8.encode twoParts) = twoParts.toList := by decide +kernel
  rw [htext]
  cbv

/-- Variables of two parts of the reader, and another one. -/
def twoVariables : Environment :=
  [("COLPROTO_READER__BATCH_SIZE", "077"), ("LANG", "C"),
    ("COLPROTO_READER__REQUIRED_FIELDS", "0, 2")]

/-- The batches are those of the environment, which the file has, too; the directive is in the
environment alone, the first row group in the file alone, and the number of row groups nowhere. -/
theorem load_two_layers :
    EntriesGive twoPartEntries { batchSize := some 64, startRowGroup := some 5 } ∧
      EnvironmentGives twoVariables { requiredFields := some "0, 2", batchSize := some 77 } ∧
      load (diskOf twoParts) (some "c.toml") twoVariables = .ok ⟨"0, 2", 77, 5, 0⟩ := by
  have hentries : EntriesGive twoPartEntries
      { batchSize := some 64, startRowGroup := some 5 } := by
    refine ⟨fun s hs => ?_, fun p => by cases p <;> rfl⟩
    simp only [twoPartEntries, List.mem_cons, Prod.mk.injEq, String.reduceEq, false_and, true_and,
      List.not_mem_nil, or_false, false_or] at hs
    exact ⟨_, hs⟩
  have hothers : OtherEntriesLeadElsewhere twoPartEntries := by
    intro e he hne p
    simp only [twoPartEntries, List.mem_cons, List.not_mem_nil, or_false] at he
    obtain rfl | rfl := he
    · have hpath : readPath "version" = [.key "version"] := by decide +kernel
      exact hpath ▸ .elsewhere (by decide)
    · exact absurd rfl hne
  have hreads : ReadsAsText "0, 2" := by
    refine ⟨by decide, fun n hn => ?_, by decide +kernel⟩
    have hfault : Text.Numeral.readInt 10 (2 ^ 63 - 1) "0, 2".toList = .error .invalidDigit := by
      decide
    rw [hfault] at hn
    cases hn
  have hwrites : WritesCount "077" 77 :=
    ⟨⟨by decide, List.all_eq_true.1 (by decide), by decide⟩, by decide⟩
  have henv : EnvironmentGives twoVariables
      { requiredFields := some "0, 2", batchSize := some 77 } :=
    ⟨.some ⟨rfl, hreads⟩, .some hwrites, .none, .none⟩
  have hvariables : OtherVariablesLeadElsewhere twoVariables := by
    intro e he hne path hpath
    simp only [twoVariables, List.mem_cons, List.not_mem_nil, or_false] at he
    obtain rfl | rfl | rfl := he
    · exact absurd rfl (hne .batchSize)
    · have hlang : variablePath? "LANG" = none := by decide
      rw [hlang] at hpath
      cases hpath
    · exact absurd rfl (hne .requiredFields)
  exact ⟨hentries, henv, load_of_layers fileHas_twoParts hentries hothers henv hvariables⟩

/-- A variable with the name of a part's in small letters. -/
def smallLetters : Environment := [("colproto_reader__batch_size", "9")]

/-- A file with a quoted name that is a path to a part of the reader. -/
def quotedPath : String := "\"reader.batch_size\" = 7\n\n[reader]\nstart_row_group = 3\n"

/-- Its entries. -/
def quotedPathEntries : List (String × Setting) :=
  [("reader.batch_size", .int 7), ("reader", .table [("start_row_group", .int 3)])]

/-- The file is read. -/
theorem fileHas_quotedPath : FileHas (diskOf quotedPath) (some "c.toml") quotedPathEntries := by
  refine .text rfl (by decide +kernel) ?_
  have htokens : (Toml.Token.lineEnds? (fileText (Text.Utf8.encode quotedPath))).bind
      Toml.Token.split? = some
      [.string "reader.batch_size", .blank [' '], .mark '=', .blank [' '], .word ['7'],
        .newline, .newline, .mark '[', .word "reader".toList, .mark ']', .newline,
        .word "start_row_group".toList, .blank [' '], .mark '=', .blank [' '], .word ['3'],
        .newline] := by
    decide +kernel
  simp only [Toml.settings?, Option.bind_eq_bind, ← Option.bind_assoc, htokens]
  cbv

/-- Variables are found in any case of letters, and the names of a file are paths, also quoted ones.
So a part may come from a variable with a name in small letters, or from an entry outside the
reader's table. -/
theorem load_ne_layers :
    load ⟨[]⟩ none smallLetters = .ok ⟨"", 9, 0, 0⟩ ∧
      (¬∀ (env : Environment) (environment : Layer), EnvironmentGives env environment →
        (∀ e ∈ env, (∀ p : Part, e.1 ≠ p.variableName) → ¬"COLPROTO".toList <+: e.1.toList) →
          load ⟨[]⟩ none env = .ok (environment.onto default)) ∧
      load (diskOf quotedPath) (some "c.toml") [] = .ok ⟨"", 7, 3, 0⟩ ∧
      ¬∀ (text : String) (entries : List (String × Setting)) (file : Layer),
        FileHas (diskOf text) (some "c.toml") entries → EntriesGive entries file →
          load (diskOf text) (some "c.toml") [] = .ok (file.onto default) := by
  have hsmall : load ⟨[]⟩ none smallLetters = .ok ⟨"", 9, 0, 0⟩ := by decide +kernel
  have hquoted : load (diskOf quotedPath) (some "c.toml") [] = .ok ⟨"", 7, 3, 0⟩ := by
    decide +kernel
  refine ⟨hsmall, fun h => ?_, hquoted, fun h => ?_⟩
  · have henv : EnvironmentGives smallLetters {} := ⟨.none, .none, .none, .none⟩
    have hload := h smallLetters {} henv fun e he _ => by
      obtain rfl := List.mem_singleton.1 he
      decide
    rw [hsmall] at hload
    exact absurd hload (by decide)
  · have hgive : EntriesGive quotedPathEntries { startRowGroup := some 3 } := by
      refine ⟨fun s hs => ?_, fun p => by cases p <;> rfl⟩
      simp only [quotedPathEntries, List.mem_cons, Prod.mk.injEq, String.reduceEq, false_and,
        true_and, List.not_mem_nil, or_false, false_or] at hs
      exact ⟨_, hs⟩
    have hload := h quotedPath _ _ fileHas_quotedPath hgive
    rw [hquoted] at hload
    exact absurd hload (by decide)

end Settings

end ColumnarRecords
