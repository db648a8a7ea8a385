import ColumnarRecords.CommandLine.Run
import ColumnarRecords.Proofs.Descriptor.Sound
import ColumnarRecords.Proofs.Settings.Directive

/-!
# The directive as variable and as option

A directive may stand in a variable of the environment or after an option of the command line. What
a run selects by the one and by the other is told in `selection?_of_directive`: the same, unless
the directive reads as a number. A number is printed anew before it is checked if it stood in the
variable, and is checked as it was written if it stood on the command line.
-/

namespace ColumnarRecords

open Descriptor (bind_eq_ok)
open Floating (digitsValue isDigit)

namespace Settings

/-- Settings that are loaded come from entries, which do not depend on the environment. -/
theorem exists_entries_of_load {d : Disk} {path : Option String} {env : Environment}
    {s : Settings} (h : load d path env = .ok s) :
    ∃ file, ofSetting? (layered file env) = some s ∧
      ∀ env, load d path env = ofLayers file env := by
  have hlayers : ∀ {file}, ofLayers file env = .ok s → ofSetting? (layered file env) = some s := by
    intro file hfile
    rw [ofLayers] at hfile
    split at hfile
    · rename_i hs
      exact hs.trans (congrArg some (Except.ok.inj hfile))
    · cases hfile
  cases path with
  | none => exact ⟨[], hlayers h, fun _ => rfl⟩
  | some path =>
    simp only [load] at h ⊢
    cases hentries : fileEntries d path with
    | error e =>
      rw [hentries] at h
      cases h
    | ok entries =>
      rw [hentries] at h
      exact ⟨entries, hlayers h, fun _ => rfl⟩

/-- What a variable with a directive changes in the settings that are loaded. -/
theorem load_of_directive {d : Disk} {path : Option String} {name : String}
    {before after : Environment} {s : Settings} (directive : String)
    (hname : Setting.variablePath? name = some "reader.required_fields")
    (hafter : Setting.EnvironmentSpares "required_fields" after)
    (h : load d path (before ++ after) = .ok s) :
    ∃ t text, load d path (before ++ (name, directive) :: after) = .ok t ∧
      (Setting.ofVariable directive).text? = some text ∧
      (t = { s with requiredFields := text } ∨ t = { default with requiredFields := text }) := by
  obtain ⟨file, hs, hload⟩ := exists_entries_of_load h
  obtain ⟨text, htext⟩ : ∃ text, (Setting.ofVariable directive).text? = some text := by
    obtain ⟨_, h, -⟩ | ⟨_, h, -⟩ | ⟨_, h, -⟩ | h := Setting.ofVariable_cases directive <;>
      exact ⟨_, congrArg Setting.text? h⟩
  have hpath : Setting.readPath "reader.required_fields" =
      [.key "reader", .key "required_fields"] := by
    decide +kernel
  have hcarries := carries_layered hname hpath hafter directive file before
  rw [hload, ofLayers]
  obtain hnew | hnew := ofSetting?_of_carries hcarries htext hs <;> rw [hnew]
  · exact ⟨_, text, rfl, htext, .inl rfl⟩
  · exact ⟨_, text, rfl, htext, .inr rfl⟩

end Settings

namespace CommandLine

/-- What a run selects, if it accepts its settings and their directive. -/
def Arguments.selection? (a : Arguments) (d : Disk) (env : Environment) : Option Selection :=
  ((a.settings d env).bind Settings.selection).toOption

/-- What a run with the words of a command line selects. -/
def selection? (words : List String) (d : Disk) (env : Environment) : Option Selection :=
  (Arguments.read? words).bind fun a => a.selection? d env

/-- A reader that a run opens is opened by what the run selects. -/
theorem Arguments.selection?_of_openReader {a : Arguments} {d : Disk} {env : Environment}
    {r : Reader FileSource} (h : a.openReader d env = .ok r) :
    ∃ settings schema selection, a.settings d env = .ok settings ∧ a.schema d = .ok schema ∧
      a.selection? d env = some selection ∧
      a.reader d settings.readOptions schema selection = .ok r := by
  obtain ⟨settings, hsettings, h⟩ := bind_eq_ok.mp h
  obtain ⟨schema, hschema, h⟩ := bind_eq_ok.mp h
  obtain ⟨selection, hselection, h⟩ := bind_eq_ok.mp h
  refine ⟨settings, schema, selection, hsettings, hschema, ?_, ?_⟩
  · rw [Arguments.selection?, hsettings]
    exact congrArg Except.toOption hselection
  · cases hreader : a.reader d settings.readOptions schema selection with
    | ok reader =>
      rw [hreader] at h
      exact congrArg Except.ok (Except.ok.inj h)
    | error e =>
      rw [hreader] at h
      cases h

/-- With settings that can be loaded, what is selected depends on the directive alone. -/
theorem Arguments.selection?_of_load {a : Arguments} {d : Disk} {env : Environment} {s : Settings}
    (hload : Settings.load d a.config env = .ok s) (hbatch : s.batchSize ≠ 0) :
    a.selection? d env = Settings.selectionOf? (a.required.getD s.requiredFields) := by
  simp only [Arguments.selection?, Arguments.settings, hload, Settings.check, hbatch, if_false,
    Settings.selectionOf?]
  by_cases hparts : (a.required.getD s.requiredFields).toList.all Settings.isDirectivePart
  · simp only [hparts, if_true, Except.bind, Settings.selection]
    cases Selection.parse (a.required.getD s.requiredFields) <;> rfl
  · simp only [hparts, Bool.false_eq_true, if_false]
    rfl

/-- The word of the option with a directive, as an item. -/
theorem readItems?_required {words : List String} {items : List Item} (directive : String)
    (h : readItems? words = some items) :
    readItems? (("--required=" ++ directive) :: words) =
      some (.value .required directive :: items) := by
  have hword : ("--required=" ++ directive).toList =
      '-' :: '-' :: ("required".toList ++ '=' :: directive.toList) := by
    rw [String.toList_append]
    rfl
  have hsplit : splitEquals ("required".toList ++ '=' :: directive.toList) =
      ("required".toList, some directive.toList) := by
    simp [splitEquals]
  have hfind : (ValueOption.all.find? fun o => o.long.toList == "required".toList) =
      some .required := by
    decide
  have hstart : readStart? ("--required=" ++ directive).toList =
      some (.value .required (some directive.toList)) := by
    rw [hword]
    simp only [readStart?, hsplit, hfind]
  rw [readItems?]
  · simp only [hstart, h, Option.map_some, String.ofList_toList]
  · intro hend
    rw [hend] at hword
    cases hword

/-- An option that is given after none of its kind has the value that is given. -/
theorem value?_cons {o : ValueOption} {items : List Item} {text : String} (ho : o.isPath = false)
    (h : value? o items = some none) : value? o (.value o text :: items) = some (some text) := by
  have hnone : values o items = [] := by
    rw [value?] at h
    split at h
    · assumption
    · split at h <;> cases h
    · cases h
  have hvalues : values o (.value o text :: items) = [text] := by
    simpa only [values, List.filterMap_cons, if_true, List.cons.injEq, true_and] using hnone
  simp [value?, hvalues, ho]

/-- The directive on the command line takes the place of none. -/
theorem Arguments.read?_required {words : List String} {a : Arguments} (directive : String)
    (h : Arguments.read? words = some a) (hrequired : a.required = none) :
    Arguments.read? (("--required=" ++ directive) :: words) =
      some { a with required := some directive } := by
  obtain ⟨items, hitems, h⟩ := Option.bind_eq_some_iff.mp h
  rw [Arguments.read?, readItems?_required directive hitems, Option.bind_some]
  -- The other options are found among the items as before, and so is the flag.
  have hother : ∀ o, o ≠ .required →
      value? o (.value .required directive :: items) = value? o items := by
    intro o ho
    simp only [value?, values, List.filterMap_cons, if_neg (Ne.symm ho)]
  have hcount : (Item.value .required directive :: items).count .plan = items.count .plan := by
    simp
  simp only [ofItems?, Option.bind_eq_bind, Option.bind_eq_some_iff] at h ⊢
  obtain ⟨file, hfile, _, rfl, set, hset, _, rfl, message, hmessage, _, rfl, required, hvalue,
    config, hconfig, limit, hlimit, count, hread, h⟩ := h
  split at h
  · cases h
  · rename_i hplans
    obtain rfl := Option.some.inj h
    obtain rfl : required = none := hrequired
    refine ⟨_, (hother _ (by decide)).trans hfile, _, rfl, _, (hother _ (by decide)).trans hset, _,
      rfl, _, (hother _ (by decide)).trans hmessage, _, rfl, _, value?_cons rfl hvalue, _,
      (hother _ (by decide)).trans hconfig, _, (hother _ (by decide)).trans hlimit, _, hread, ?_⟩
    rw [hcount, if_neg hplans]
    rfl

/-- What a directive selects as the value of a variable and after the option, if the other settings
can be loaded and pass the check. A truth value or a text selects the same. A whole number selects
the field at that index, as a variable whenever it is not negative, and as an option if it is
written in digits alone. A floating point number selects, as a variable, the field at the index that
it is printed as, if that is a whole number without sign, and as an option the field at the index
that it is written as, if that is in digits alone. -/
theorem selection?_of_directive {words : List String} {a : Arguments} {d : Disk} {name : String}
    {before after : Environment} {s : Settings} (directive : String)
    (hwords : Arguments.read? words = some a) (hrequired : a.required = none)
    (hname : Setting.variablePath? name = some "reader.required_fields")
    (hafter : Setting.EnvironmentSpares "required_fields" after)
    (hload : Settings.load d a.config (before ++ after) = .ok s) (hbatch : s.batchSize ≠ 0) :
    let byVariable := selection? words d (before ++ (name, directive) :: after)
    let byOption := selection? (("--required=" ++ directive) :: words) d (before ++ after)
    match Setting.ofVariable directive with
    | .int n =>
      byVariable = (if 0 ≤ n then Selection.single? n.toNat else none) ∧
      byOption = if directive.toList.all isDigit then Selection.single? n.toNat else none
    | .float bits =>
      byVariable = ((Floating.ofBits .binary64 bits).whole? .binary64).bind Selection.single? ∧
      byOption =
        if directive.toList.all isDigit then Selection.single? (digitsValue 0 directive.toList)
        else none
    | _ =>
      byVariable = Settings.selectionOf? directive ∧
      byOption = Settings.selectionOf? directive := by
  intro byVariable byOption
  -- The option takes the place of what the layers give, whatever that is.
  have hoption : byOption = Settings.selectionOf? directive :=
    calc byOption = { a with required := some directive }.selection? d (before ++ after) := by
          simp only [byOption, selection?, Arguments.read?_required directive hwords hrequired,
            Option.bind_some]
      _ = Settings.selectionOf? directive :=
          Arguments.selection?_of_load (a := { a with required := some directive }) hload hbatch
  -- The variable becomes a setting, and its text is what is checked and parsed.
  obtain ⟨t, text, ht, htext, hsettings⟩ := Settings.load_of_directive directive hname hafter hload
  have hbatch' : t.batchSize ≠ 0 := by
    obtain rfl | rfl := hsettings
    · exact hbatch
    · exact (by decide : Settings.default.batchSize ≠ 0)
  have hfields : t.requiredFields = text := by
    obtain rfl | rfl := hsettings <;> rfl
  have hvariable : byVariable = Settings.selectionOfSetting? (Setting.ofVariable directive) :=
    calc byVariable = a.selection? d (before ++ (name, directive) :: after) := by
          simp only [byVariable, selection?, hwords, Option.bind_some]
      _ = Settings.selectionOf? (a.required.getD t.requiredFields) :=
          Arguments.selection?_of_load ht hbatch'
      _ = Settings.selectionOf? text := by rw [hrequired, Option.getD_none, hfields]
      _ = Settings.selectionOfSetting? (Setting.ofVariable directive) :=
          Settings.selectionOf?_text htext
  have hown := Settings.selectionOf?_by_ofVariable directive
  cases hv : Setting.ofVariable directive with
  | int n =>
    rw [hv] at hvariable hown
    exact ⟨hvariable, hoption.trans hown⟩
  | float bits =>
    rw [hv] at hvariable hown
    exact ⟨hvariable, hoption.trans hown⟩
  | _ =>
    rw [hv] at hvariable hown
    exact ⟨hvariable.trans hown.symm, hoption⟩

/-- A command line without a directive. -/
def plainWords : List String :=
  ["--file=p.parquet", "--descriptor-set=p.fds", "--message=test.Person"]

/-- Variables one of which gives a setting, another than the directive. -/
def batchEnvironment : Environment :=
  [("COLPROTO_READER__BATCH_SIZE", "7"), ("LANG", "C")]

/-- An index with zeros before it is the same field as a variable and as an option. -/
theorem selection?_zeros :
    selection? plainWords ⟨[]⟩ (("COLPROTO_READER__REQUIRED_FIELDS", "007") :: batchEnvironment) =
        some (.indices [7]) ∧
      selection? (("--required=" ++ "007") :: plainWords) ⟨[]⟩ batchEnvironment =
        some (.indices [7]) := by
  have hspares : Setting.EnvironmentSpares "required_fields" batchEnvironment := by
    intro e he path hpath
    obtain rfl | he := List.mem_cons.mp he
    · obtain rfl := Option.some.inj
        ((by decide : Setting.variablePath? "COLPROTO_READER__BATCH_SIZE" =
          some "reader.batch_size").symm.trans hpath)
      rw [(by decide +kernel : Setting.readPath "reader.batch_size" =
        [.key "reader", .key "batch_size"])]
      exact .beside (by decide)
    · obtain rfl := List.mem_singleton.mp he
      rw [(by decide : Setting.variablePath? "LANG" = none)] at hpath
      cases hpath
  have hwords : Arguments.read? plainWords =
      some ⟨"p.parquet", "p.fds", "test.Person", none, none, none, false⟩ := by
    decide +kernel
  have hname : Setting.variablePath? "COLPROTO_READER__REQUIRED_FIELDS" =
      some "reader.required_fields" := by
    decide
  have hload : Settings.load ⟨[]⟩ none ([] ++ batchEnvironment) = .ok ⟨"", 7, 0, 0⟩ := by
    decide +kernel
  have hvalue : Setting.ofVariable "007" = .int 7 := rfl
  have hselects := selection?_of_directive "007" hwords rfl hname hspares hload (by decide)
  rw [hvalue] at hselects
  exact hselects

/-- A number with an exponent selects a field as a variable and is rejected as an option. -/
theorem selection?_exponent :
    selection? plainWords ⟨[]⟩ [("COLPROTO_READER__REQUIRED_FIELDS", "1e0")] =
        some (.indices [1]) ∧
      selection? (("--required=" ++ "1e0") :: plainWords) ⟨[]⟩ [] = none := by
  decide +kernel

end CommandLine

end ColumnarRecords
