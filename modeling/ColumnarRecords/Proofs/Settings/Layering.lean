import ColumnarRecords.Settings.Load

/-!
# Variables over other settings

What the variable of one part of the reader's settings changes. After the variable the part is the
one that it gives and every other part is what it was (`Setting.Carries.of_assign`); variables that
lead elsewhere keep this (`Setting.Carries.withEnvironment`), so that it holds of whole
environments. `Settings.ofSetting?_of_carries` says what it means for the settings that are read
in the end.
-/

namespace ColumnarRecords

namespace Setting

/-- A lookup in a table of which one entry was changed. -/
theorem find?_updateKey (name n : String) (f : Setting → Setting) (s : Setting) :
    (s.updateKey name f).find? n =
      if n = name then some (f ((s.find? name).getD unset)) else s.find? n := by
  cases s with
  | table entries => exact find?_updateEntry name n f entries
  | _ => exact find?_updateEntry name n f []

/-- The part of a name among the reader's settings. -/
def readerPart? (name : String) (s : Setting) : Option Setting :=
  (s.find? "reader").bind (find? name)

/-- Steps that lead neither to a part of the reader's settings nor to a setting that holds it. -/
inductive Spares (part : String) : List Step → Prop
  /-- To something else than the reader. -/
  | elsewhere {name : String} {rest : List Step} (h : name ≠ "reader") :
    Spares part (.key name :: rest)
  /-- To another part. -/
  | beside {name : String} {rest : List Step} (h : name ≠ part) :
    Spares part (.key "reader" :: .key name :: rest)

/-- Settings that are others with a part of the reader's settings in place of what was there. -/
structure Carries (part : String) (v s t : Setting) : Prop where
  /-- The reader's settings have names. -/
  table : ∃ entries, t.find? "reader" = some (.table entries)
  /-- The part is there. -/
  there : t.readerPart? part = some v
  /-- The other parts are what they were. -/
  others : ∀ name, name ≠ part → t.readerPart? name = s.readerPart? name

/-- A part of the reader's settings after a change of one. -/
theorem readerPart?_updateKey (part name : String) (f : Setting → Setting) (s : Setting) :
    (s.updateKey "reader" (updateKey part f)).readerPart? name =
      if name = part then some (f ((s.readerPart? part).getD unset)) else s.readerPart? name := by
  -- Where there are no settings of the reader, there is no part of them either.
  have hpart : ∀ n, ((s.find? "reader").getD unset).find? n = s.readerPart? n := by
    intro n
    rw [readerPart?]
    cases s.find? "reader" <;> rfl
  rw [readerPart?, find?_updateKey, if_pos rfl, Option.bind_some, find?_updateKey, hpart, hpart]

/-- A change of an entry makes a table. -/
theorem exists_updateKey_eq_table (name : String) (f : Setting → Setting) (s : Setting) :
    ∃ entries, s.updateKey name f = table entries := by
  cases s <;> exact ⟨_, rfl⟩

/-- The variable of a part puts it in its place. -/
theorem Carries.of_assign {part path : String} {v : Setting}
    (hpath : readPath path = [.key "reader", .key part]) (hv : ∀ old, merge v old = v)
    (s : Setting) : Carries part v s (assign path v s) := by
  have hassign : assign path v s = s.updateKey "reader" (updateKey part (merge v)) := by
    rw [assign, hpath]
    rfl
  rw [hassign]
  refine ⟨?_, ?_, fun name hname => ?_⟩
  · rw [find?_updateKey, if_pos rfl]
    obtain ⟨entries, h⟩ := exists_updateKey_eq_table part (merge v) ((s.find? "reader").getD unset)
    exact ⟨entries, congrArg some h⟩
  · rw [readerPart?_updateKey, if_pos rfl, hv]
  · rw [readerPart?_updateKey, if_neg hname]

/-- A change elsewhere keeps what a part is. -/
theorem Carries.updated {part : String} {v s t : Setting} (h : Carries part v s t)
    {steps : List Step} (hsteps : Spares part steps) (f : Setting → Setting) :
    Carries part v (s.update f steps) (t.update f steps) := by
  cases hsteps with
  | @elsewhere name rest hname =>
    -- The reader's settings are left alone as a whole.
    have hreader : ∀ u : Setting,
        (u.update f (.key name :: rest)).find? "reader" = u.find? "reader" := by
      intro u
      rw [update, find?_updateKey, if_neg (Ne.symm hname)]
    have hparts : ∀ (u : Setting) n,
        (u.update f (.key name :: rest)).readerPart? n = u.readerPart? n := by
      intro u n
      rw [readerPart?, readerPart?, hreader]
    refine ⟨?_, ?_, fun n hn => ?_⟩
    · rw [hreader]
      exact h.table
    · rw [hparts]
      exact h.there
    · rw [hparts, hparts]
      exact h.others n hn
  | @beside name rest hname =>
    -- What another part becomes depends on what it was, which is the same in both.
    have hparts : ∀ (u : Setting) n,
        (u.update f (.key "reader" :: .key name :: rest)).readerPart? n =
          if n = name then some (update f rest ((u.readerPart? name).getD unset))
          else u.readerPart? n :=
      fun u n => readerPart?_updateKey name n (update f rest) u
    refine ⟨?_, ?_, fun n hn => ?_⟩
    · rw [update, find?_updateKey, if_pos rfl]
      obtain ⟨entries, he⟩ :=
        exists_updateKey_eq_table name (update f rest) ((t.find? "reader").getD unset)
      exact ⟨entries, congrArg some he⟩
    · rw [hparts, if_neg (Ne.symm hname)]
      exact h.there
    · rw [hparts, hparts, h.others name hname, h.others n hn]

/-- The variables of an environment all lead elsewhere. -/
def EnvironmentSpares (part : String) (env : Environment) : Prop :=
  ∀ e ∈ env, ∀ path, variablePath? e.1 = some path → Spares part (readPath path)

/-- An environment that leads elsewhere keeps what a part is. -/
theorem Carries.withEnvironment {part : String} {v : Setting} {env : Environment}
    (hspares : EnvironmentSpares part env) {s t : Setting} (h : Carries part v s t) :
    Carries part v (s.withEnvironment env) (t.withEnvironment env) := by
  -- Both settings get the same variables in turn, and none of them leads to the part.
  induction env generalizing s t with
  | nil => exact h
  | cons e rest ih =>
    have hrest : EnvironmentSpares part rest := fun e he => hspares e (List.mem_cons_of_mem _ he)
    simp only [Setting.withEnvironment, List.foldl_cons]
    cases hpath : variablePath? e.1 with
    | none => exact ih hrest h
    | some path =>
      exact ih hrest (h.updated (hspares e List.mem_cons_self path hpath) (merge (ofVariable e.2)))

/-- The variables of an environment one after another. -/
theorem withEnvironment_append (before after : Environment) (s : Setting) :
    s.withEnvironment (before ++ after) =
      (s.withEnvironment before).withEnvironment after :=
  List.foldl_append

/-- What the value of a variable becomes, by what it reads as. -/
theorem ofVariable_cases (value : String) :
    (∃ b : Bool, ofVariable value = .bool b ∧
      String.ofList (value.toList.map Char.toLower) = toString b) ∨
    (∃ n, ofVariable value = .int n ∧ Text.Numeral.readInt 10 (2 ^ 63 - 1) value.toList = .ok n) ∨
    (∃ bits, ofVariable value = .float bits ∧
      Floating.readBits? .binary64 value.toList = some bits) ∨
    ofVariable value = .text value := by
  by_cases htrue : String.ofList (value.toList.map Char.toLower) = "true"
  · exact .inl ⟨true, by simp only [ofVariable, htrue, if_true], htrue⟩
  by_cases hfalse : String.ofList (value.toList.map Char.toLower) = "false"
  · exact .inl ⟨false, by simp [ofVariable, hfalse], hfalse⟩
  cases hint : Text.Numeral.readInt 10 (2 ^ 63 - 1) value.toList with
  | ok n => exact .inr (.inl ⟨n, by simp only [ofVariable, htrue, hfalse, hint, if_false], rfl⟩)
  | error e =>
    cases hbits : Floating.readBits? .binary64 value.toList with
    | some bits =>
      refine .inr (.inr (.inl ⟨bits, ?_, rfl⟩))
      simp only [ofVariable, htrue, hfalse, hint, hbits, if_false]
    | none =>
      refine .inr (.inr (.inr ?_))
      simp only [ofVariable, htrue, hfalse, hint, hbits, if_false]

/-- The value of a variable takes the place of anything. -/
theorem merge_ofVariable (value : String) (old : Setting) :
    merge (ofVariable value) old = ofVariable value := by
  obtain ⟨_, h, -⟩ | ⟨_, h, -⟩ | ⟨_, h, -⟩ | h := ofVariable_cases value <;> rw [h] <;> rfl

end Setting

namespace Settings

open Setting (Carries EnvironmentSpares)

/-- What a variable of a part changes in the layers. -/
theorem carries_layered {part path name : String} {after : Environment}
    (hname : Setting.variablePath? name = some path)
    (hpath : Setting.readPath path = [.key "reader", .key part])
    (hafter : EnvironmentSpares part after) (value : String) (file : List (String × Setting))
    (before : Environment) :
    Carries part (Setting.ofVariable value) (layered file (before ++ after))
      (layered file (before ++ (name, value) :: after)) := by
  simp only [layered, Setting.withEnvironment_append]
  generalize Setting.withEnvironment before _ = s
  have hassign := Carries.of_assign hpath (Setting.merge_ofVariable value) s
  have hvariable : s.withEnvironment ((name, value) :: after) =
      (Setting.assign path (Setting.ofVariable value) s).withEnvironment after := by
    simp only [Setting.withEnvironment, List.foldl_cons, hname]
  rw [hvariable]
  exact hassign.withEnvironment hafter

/-- Settings of parts with another directive. -/
theorem ofParts?_of_directive {p q : String → Option Setting} {v : Setting} {text : String}
    {old : Settings} (hold : ofParts? (fun name _ => p name) = some old)
    (hthere : q "required_fields" = some v) (htext : v.text? = some text)
    (hothers : ∀ name, name ≠ "required_fields" → q name = p name) :
    ofParts? (fun name _ => q name) = some { old with requiredFields := text } := by
  simp only [ofParts?, Option.bind_eq_bind, Option.bind_eq_some_iff, Option.pure_def,
    Option.some.injEq] at hold ⊢
  obtain ⟨_, -, batch, hbatch, start, hstart, total, htotal, rfl⟩ := hold
  refine ⟨text, by rw [hthere]; exact htext, batch, ?_, start, ?_, total, ?_, rfl⟩
  · rwa [hothers "batch_size" (by decide)]
  · rwa [hothers "start_row_group" (by decide)]
  · rwa [hothers "total_row_groups" (by decide)]

/-- The settings with a directive in place of what was there: the other settings are the same,
unless they had no names, and then the default ones. -/
theorem ofSetting?_of_carries {v s t : Setting} {text : String} {old : Settings}
    (h : Carries "required_fields" v s t) (htext : v.text? = some text)
    (hold : ofSetting? s = some old) :
    ofSetting? t = some { old with requiredFields := text } ∨
      ofSetting? t = some { default with requiredFields := text } := by
  obtain ⟨entries, hentries⟩ := h.table
  have hnew : ofSetting? t = ofParts? fun name _ => t.readerPart? name := by
    simp only [ofSetting?, Setting.readerPart?, hentries, readOr, ofReader?, Option.bind_some]
  have hparts : ∀ {settings}, ofParts? (fun name _ => s.readerPart? name) = some settings →
      ofSetting? t = some { settings with requiredFields := text } :=
    fun hs => hnew.trans (ofParts?_of_directive hs h.there htext h.others)
  have hnone : (∀ name, s.readerPart? name = none) →
      ofParts? (fun name _ => s.readerPart? name) = some default := by
    intro hname
    simp only [hname]
    rfl
  cases hreader : s.find? "reader" with
  | none =>
    exact .inr (hparts (hnone fun name => by simp [Setting.readerPart?, hreader]))
  | some reader =>
    cases reader with
    | table old =>
      refine .inl (hparts ?_)
      simpa only [ofSetting?, Setting.readerPart?, hreader, readOr, ofReader?, Option.bind_some]
        using hold
    | list items =>
      -- A list has parts by position; it gives way to a table, so none of them is left.
      refine .inr (hparts (hnone fun name => ?_))
      rw [Setting.readerPart?, hreader]
      rfl
    | _ => simp [ofSetting?, hreader, readOr, ofReader?] at hold

end Settings

end ColumnarRecords
