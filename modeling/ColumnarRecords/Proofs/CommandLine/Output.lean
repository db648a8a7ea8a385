import ColumnarRecords.Proofs.CommandLine.Required
import ColumnarRecords.Proofs.Json.Line
import ColumnarRecords.Proofs.Reader.Draining
import ColumnarRecords.Proofs.Source.Split

/-!
# What a run prints

A run that shows records prints a line for each message before the first record that gives an
error, up to the limit. `run_prints_leading` says so of any column file, descriptor set and command
line for which the reader is opened, and when the run reports that record.

The reader is lazy: it answers with the results of the rows in turn and ends with the first error
(`Reader.take_of_delivers`), so the limit may cut before the error or let it through
(`printRecords_upToError`). The results are those of the whole rows of the split, although the
source gives the planned columns only (`take_of_openReader`).
-/

namespace ColumnarRecords

open Descriptor ColumnSource

/-- The values before the first error. -/
def leading {ε α : Type} : List (Except ε α) → List α
  | .ok a :: rest => a :: leading rest
  | _ => []

/-- After the values before the first error the results end, or this error comes. -/
theorem getElem?_length_leading {ε α : Type} (results : List (Except ε α)) :
    (leading results).length = results.length ∨
      ∃ e, results[(leading results).length]? = some (.error e) := by
  induction results with
  | nil => exact .inl rfl
  | cons result rest ih =>
    cases result with
    | error e => exact .inr ⟨e, rfl⟩
    | ok a => exact ih.imp (congrArg (· + 1)) id

/-- There are at most as many values before the first error as results. -/
theorem length_leading_le {ε α : Type} (results : List (Except ε α)) :
    (leading results).length ≤ results.length := by
  obtain hend | ⟨e, he⟩ := getElem?_length_leading results
  · exact Nat.le_of_eq hend
  · exact Nat.le_of_lt (List.getElem?_eq_some_iff.1 he).1

namespace Reader

variable {σ : Type} [ColumnSource σ] {r : Reader σ}

/-- A read that has ended gives nothing more. -/
theorem take_of_ended (h : r.state = .exhausted ∨ r.state = .failed) (count : Nat) :
    (r.take count).1 = [] := by
  cases count with
  | zero => rfl
  | succ count => rw [take, next?_of_ended h]

/-- An open reader of a source that has delivered all records is at the end. -/
theorem next?_of_done {source : σ} (hstate : r.state = .planned ∨ r.state = .iterating)
    (hadvance : advance r.source = (.ok false, source)) : ∃ r', r.next? = (none, r') := by
  have hnext : r.nextRecord =
      (.ok false, { r with source := source, state := .exhausted, message := none }) := by
    unfold nextRecord
    rw [hadvance]
    rcases hstate with hs | hs <;> rw [hs]
  have hopen : r.state ≠ .failed := by rcases hstate with hs | hs <;> simp [hs]
  unfold next?
  rw [if_neg hopen, hnext]
  exact ⟨_, rfl⟩

/-- An open reader of a source that delivers a record answers with its message, or with the error
that the record is, which ends the read. -/
theorem next?_of_next {source source' : σ} {record : Record}
    (hstate : r.state = .planned ∨ r.state = .iterating)
    (hadvance : advance r.source = (.ok true, source))
    (hcurrent : current source = (.ok (some record), source')) :
    match r.plan.materialize record with
    | .ok m => ∃ r', r.next? = (some (.ok m), r') ∧ r'.state = .iterating ∧ r'.plan = r.plan ∧
        r'.source = source'
    | .error e => ∃ r', r.next? = (some (.error e), r') ∧ r'.state = .failed := by
  have hnext : r.nextRecord = (.ok true, { r with
      source := source, state := .iterating, message := none,
      recordsRead := r.recordsRead + 1 }) := by
    unfold nextRecord
    rw [hadvance]
    rcases hstate with hs | hs <;> rw [hs]
  have hopen : r.state ≠ .failed := by rcases hstate with hs | hs <;> simp [hs]
  unfold next?
  rw [if_neg hopen, hnext]
  simp only [currentValue, build, hcurrent]
  cases r.plan.materialize record with
  | ok m => exact ⟨_, rfl, rfl, rfl, rfl⟩
  | error e => exact ⟨_, rfl, rfl⟩

/-- A reader of a source that delivers records gives their messages in turn, up to the first error
and with it. -/
theorem take_of_delivers {records : List Record}
    (hstate : r.state = .planned ∨ r.state = .iterating) (h : Delivers r.source records)
    (count : Nat) :
    (r.take count).1 = (upToError (records.map r.plan.materialize)).take count := by
  induction count generalizing r records with
  | zero => rfl
  | succ count ih =>
    rw [take]
    cases h with
    | done hadvance =>
      obtain ⟨r', hnext⟩ := next?_of_done hstate hadvance
      rw [hnext]
      rfl
    | @next _ _ _ record rest hadvance hcurrent hrest =>
      have hstep := next?_of_next hstate hadvance hcurrent
      rw [List.map_cons]
      cases hm : r.plan.materialize record with
      | error e =>
        rw [hm] at hstep
        obtain ⟨r', hnext, hfailed⟩ := hstep
        rw [hnext]
        simp only [take_of_ended (.inr hfailed), upToError, List.take_succ_cons, List.take_nil]
      | ok m =>
        rw [hm] at hstep
        obtain ⟨r', hnext, hiterating, hplan, hsource⟩ := hstep
        rw [hnext]
        simp only [upToError, List.take_succ_cons]
        rw [ih (.inr hiterating) (hsource ▸ hrest), hplan]

end Reader

namespace FileSource

variable {file : ColumnFile} {options : ReadOptions} {source : FileSource}

/-- The columns of a file that was opened hold bytes. -/
theorem binary_of_ofFile (h : ofFile file options = .ok source) :
    ∀ c ∈ file.columns, c.type = "Binary" := by
  intro c hc
  by_contra hne
  obtain ⟨bad, hbad⟩ : ∃ bad, file.columns.find? (·.type != "Binary") = some bad :=
    Option.isSome_iff_exists.1 (List.find?_isSome.2 ⟨c, hc, bne_iff_ne.2 hne⟩)
  unfold ofFile openWith checkColumns at h
  rw [hbad] at h
  cases h

/-- A reader of a file delivers the rows of its split to the plan, restricted to the planned
columns. -/
theorem delivers_of_openNumbers (h : ofFile file options = .ok source)
    {groups : List (List Cells)} (hsplit : split file options = .ok groups)
    (hwidth : ∀ row ∈ file.rowGroups.flatten, row.length = file.columns.length) {s : Schema}
    {numbers : List Nat} {r : Reader FileSource}
    (hopen : Reader.openNumbers source s numbers = .ok r) :
    Delivers r.source
      (groups.flatten.map fun row => (Record.ofCells row).restrict r.plan.columns) := by
  have htable : file.IsTable := ⟨binary_of_ofFile h, hwidth⟩
  have hstart : ¬(0 < options.startRowGroup ∧ file.rowGroups.length ≤ options.startRowGroup) := by
    intro hstart
    rw [split_eq, if_pos hstart] at hsplit
    cases hsplit
  rw [split_eq, if_neg hstart] at hsplit
  obtain ⟨source', hsource', -, hreads⟩ :=
    reads_openWith htable (.ofSize options.batchSize) options hstart
  obtain rfl := Except.ok.inj (hsource'.symm.trans h)
  rw [Except.ok.inj hsplit] at hreads
  obtain ⟨-, -, -, hselect, -⟩ := Reader.openNumbers_eq_ok hopen
  -- The planned columns pass, so it is these that are selected.
  have hcolumns : selectedBy source'.columnCount [r.plan.columns] = r.plan.columns := by
    show reselect source'.columnCount (List.range source'.columnCount) r.plan.columns = _
    rw [reselect, checkSelection_of_selectColumns hselect]
    rfl
  have hdelivers := hreads [r.plan.columns]
  have hsource : selectAll [r.plan.columns] source' = r.source := congrArg Prod.snd hselect
  rw [hsource, hcolumns] at hdelivers
  exact hdelivers

end FileSource

namespace CommandLine

/-- The text of a message in JSON, up to a part that has none. -/
def textOf (s : Schema) (m : Message) : String :=
  (Json.written (Json.ofMessage s.pool s.index m)).1

/-- Every part of a message has a text in JSON. -/
def Serializes (s : Schema) (m : Message) : Prop :=
  (Json.written (Json.ofMessage s.pool s.index m)).2 = none

/-- The lines of messages. -/
def linesOf (s : Schema) (messages : List Message) : String :=
  String.join (messages.map fun m => textOf s m ++ "\n")

/-- The lines of a message and of others after it. -/
theorem linesOf_cons (s : Schema) (m : Message) (messages : List Message) :
    linesOf s (m :: messages) = textOf s m ++ "\n" ++ linesOf s messages := by
  rw [linesOf, List.map_cons, String.join_cons]
  rfl

/-- A message that serializes is printed on a line before the others. -/
theorem printRecords_ok {s : Schema} {m : Message} (h : Serializes s m) (number : Nat)
    (rest : List (Except ReadError Message)) :
    printRecords s number (.ok m :: rest) =
      (printRecords s (number + 1) rest).after (textOf s m ++ "\n") := by
  have hwritten : Json.written (Json.ofMessage s.pool s.index m) = (textOf s m, none) :=
    Prod.ext rfl h
  rw [printRecords, hwritten]

/-- What is printed of results, up to a number of them and to the first error: the lines of the
messages before the error, which is reported with the number of its record if it is among the
results that are asked for. -/
theorem printRecords_upToError {s : Schema} {results : List (Except ReadError Message)}
    (number : Nat) {limit : Nat} (h : ∀ m ∈ (leading results).take limit, Serializes s m) :
    let messages := leading results
    printRecords s number ((upToError results).take limit) =
      if messages.length < limit then
        match results[messages.length]? with
        | some (.error e) =>
          .failure (linesOf s messages)
            (.within s!"Failed to read record {number + messages.length}" (.ofError e))
        | _ => .success (linesOf s messages)
      else .success (linesOf s (messages.take limit)) := by
  -- The results are printed one after another, so the induction is for any number and limit.
  induction results generalizing number limit with
  | nil => cases limit <;> rfl
  | cons result rest ih =>
    cases limit with
    | zero => rfl
    | succ limit =>
      cases result with
      | error e => rfl
      | ok m =>
        obtain ⟨hm, hmessages⟩ := List.forall_mem_cons.1 h
        have hrest := ih (number + 1) hmessages
        have hnumber : number + 1 + (leading rest).length =
            number + ((leading rest).length + 1) := by
          omega
        rw [upToError, List.take_succ_cons, printRecords_ok hm, hrest]
        simp only [leading, List.length_cons, List.getElem?_cons_succ, List.take_succ_cons,
          linesOf_cons, Nat.add_lt_add_iff_right, hnumber]
        split
        · split <;> rfl
        · rfl

/-- What is left behind when results are printed up to a number of them: the lines of the messages
before the first error, as many as are asked for, and a failure just if this error is asked for. -/
theorem printRecords_leading {s : Schema} {results : List (Except ReadError Message)} {limit : Nat}
    (h : ∀ m ∈ (leading results).take limit, Serializes s m) :
    let messages := leading results
    let k := messages.length
    let outcome := printRecords s 1 ((upToError results).take limit)
    outcome.output = linesOf s (messages.take limit) ∧
      (outcome.code = 0 ↔ k = results.length ∨ limit ≤ k) ∧
      (outcome.code ≠ 0 → outcome.code = 1 ∧ ∃ e, results[k]? = some (.error e) ∧
        outcome = .failure (linesOf s messages)
          (.within s!"Failed to read record {k + 1}" (.ofError e))) := by
  intro messages k outcome
  have houtcome : outcome = _ := printRecords_upToError 1 h
  by_cases hk : k < limit
  · -- All these messages are asked for, and the result after them if there is one.
    rw [if_pos hk] at houtcome
    rw [List.take_of_length_le (Nat.le_of_lt hk)]
    obtain hend | ⟨e, he⟩ := getElem?_length_leading results
    · have hnone : results[k]? = none := List.getElem?_eq_none_iff.2 (Nat.le_of_eq hend.symm)
      rw [hnone] at houtcome
      rw [houtcome]
      exact ⟨rfl, iff_of_true rfl (.inl hend), fun hcode => absurd rfl hcode⟩
    · have hlt : k < results.length := (List.getElem?_eq_some_iff.1 he).1
      rw [he, Nat.add_comm 1] at houtcome
      rw [houtcome]
      refine ⟨rfl, iff_of_false Nat.one_ne_zero ?_, fun _ => ⟨rfl, e, he, rfl⟩⟩
      exact not_or_intro (Nat.ne_of_lt hlt) (Nat.not_le_of_lt hk)
  · -- The error, if there is one, is not asked for.
    rw [if_neg hk] at houtcome
    rw [houtcome]
    exact ⟨rfl, iff_of_true rfl (.inr (Nat.le_of_not_lt hk)), fun hcode => absurd rfl hcode⟩

/-- A reader that a run opens is one of its column file. -/
theorem Arguments.openNumbers_of_reader {a : Arguments} {d : Disk} {options : ReadOptions}
    {s : Schema} {selection : Selection} {r : Reader FileSource}
    (h : a.reader d options s selection = .ok r) {file : ColumnFile}
    (hfile : d.columnFile a.file = .ok file) :
    ∃ source numbers, FileSource.ofFile file options = .ok source ∧
      Reader.openNumbers source s numbers = .ok r := by
  unfold Arguments.reader at h
  rw [hfile] at h
  simp only at h
  split at h
  · cases h
  · rename_i numbers hnumbers
    split at h
    · cases h
    · rename_i source hsource
      exact ⟨source, numbers, hsource, h⟩

/-- What the rows of row groups give by a plan. -/
def resultsOf (p : Plan) (groups : List (List Cells)) : List (Except ReadError Message) :=
  groups.flatten.map fun row => p.materialize (.ofCells row)

/-- The messages before the first error, as many of them as a limit lets through. -/
def shown (limit : Option Nat) (results : List (Except ReadError Message)) : List Message :=
  let messages := leading results
  messages.take (limit.getD messages.length)

/-- What a reader that a run opens answers: what the rows of the split give, up to the first
error. -/
theorem take_of_openReader {a : Arguments} {d : Disk} {env : Environment} {r : Reader FileSource}
    (hopen : a.openReader d env = .ok r) {settings : Settings}
    (hsettings : a.settings d env = .ok settings) {file : ColumnFile}
    (hfile : d.columnFile a.file = .ok file) {groups : List (List Cells)}
    (hsplit : FileSource.split file settings.readOptions = .ok groups)
    (hwidth : ∀ row ∈ file.rowGroups.flatten, row.length = file.columns.length) (count : Nat) :
    (r.take count).1 = (upToError (resultsOf r.plan groups)).take count := by
  obtain ⟨_, schema, selection, hof, -, -, hreader⟩ := Arguments.selection?_of_openReader hopen
  obtain rfl := Except.ok.inj (hof.symm.trans hsettings)
  obtain ⟨source, numbers, hsource, hnumbers⟩ := Arguments.openNumbers_of_reader hreader hfile
  have hdelivers := FileSource.delivers_of_openNumbers hsource hsplit hwidth hnumbers
  obtain ⟨-, -, -, -, hr⟩ := Reader.openNumbers_eq_ok hnumbers
  have hstate : r.state = .planned := congrArg Reader.state hr
  rw [Reader.take_of_delivers (.inl hstate) hdelivers, List.map_map]
  -- The columns that are not planned do not matter to the plan.
  simp only [Function.comp_def, Plan.materialize_restrict, resultsOf]

/-- The limit of a run shows what its number lets through, if the records can be counted. -/
theorem shown_eq_take {a : Arguments} {results : List (Except ReadError Message)}
    (hcount : a.limit = none → results.length ≤ Text.Numeral.maxWord) :
    shown a.limit results = (leading results).take a.recordLimit := by
  unfold shown Arguments.recordLimit
  cases hl : a.limit with
  | some limit => rfl
  | none =>
    have hle : (leading results).length ≤ Text.Numeral.maxWord :=
      (length_leading_le results).trans (hcount hl)
    simp only [Option.getD_none, List.take_length]
    exact (List.take_of_length_le hle).symm

/-- A run without a limit ends with its records, if these can be counted. -/
theorem recordLimit_le_iff {a : Arguments} {results : List (Except ReadError Message)}
    (hcount : a.limit = none → results.length ≤ Text.Numeral.maxWord) :
    let k := (leading results).length
    (k = results.length ∨ a.recordLimit ≤ k) ↔
      k = results.length ∨ ∃ limit, a.limit = some limit ∧ limit ≤ k := by
  intro k
  unfold Arguments.recordLimit
  cases hl : a.limit with
  | some limit => simp
  | none =>
    have hend : Text.Numeral.maxWord ≤ k → k = results.length :=
      fun hle => Nat.le_antisymm (length_leading_le results) ((hcount hl).trans hle)
    simpa using hend

/-- What a run prints that shows records, if its reader is opened and every message that it shows
has a text: the lines of the messages of the split before the first record that gives an error, as
many of them as the limit lets through, and nothing else. The run fails just if this record is
within the limit, and then reports it by its number. The file is a table whose rows are counted in a
word, so that no limit means no end before the last row. -/
theorem run_prints_leading {words : List String} {a : Arguments} {d : Disk} {env : Environment}
    {r : Reader FileSource} {settings : Settings} {file : ColumnFile}
    {groups : List (List Cells)} (hwords : Arguments.read? words = some a)
    (hplan : a.plan = false) (hopen : a.openReader d env = .ok r)
    (hsettings : a.settings d env = .ok settings) (hfile : d.columnFile a.file = .ok file)
    (hsplit : FileSource.split file settings.readOptions = .ok groups)
    (hwidth : ∀ row ∈ file.rowGroups.flatten, row.length = file.columns.length)
    (hcount : a.limit = none → groups.flatten.length ≤ Text.Numeral.maxWord)
    (hserializes : ∀ m ∈ shown a.limit (resultsOf r.plan groups), Serializes r.plan.schema m) :
    let results := resultsOf r.plan groups
    let messages := leading results
    let k := messages.length
    let outcome := run words d env
    outcome.output = linesOf r.plan.schema (shown a.limit results) ∧
      (∀ m, Json.IsLine (textOf r.plan.schema m)) ∧
      (outcome.code = 0 ↔ k = results.length ∨ ∃ limit, a.limit = some limit ∧ limit ≤ k) ∧
      (outcome.code ≠ 0 → outcome.code = 1 ∧ ∃ e, results[k]? = some (.error e) ∧
        outcome = .failure (linesOf r.plan.schema messages)
          (.within s!"Failed to read record {k + 1}" (.ofError e))) := by
  intro results messages k outcome
  have hword : a.limit = none → results.length ≤ Text.Numeral.maxWord :=
    fun hl => (List.length_map _).trans_le (hcount hl)
  have hshown : shown a.limit results = messages.take a.recordLimit := shown_eq_take hword
  have houtcome : outcome =
      printRecords r.plan.schema 1 ((upToError results).take a.recordLimit) := by
    rw [← take_of_openReader hopen hsettings hfile hsplit hwidth]
    simp only [outcome, run, hwords, Arguments.run, hopen, hplan, Bool.false_eq_true, if_false]
  obtain ⟨houtput, hcode, hfailure⟩ := printRecords_leading (hshown ▸ hserializes)
  rw [← houtcome] at houtput hcode hfailure
  exact ⟨houtput.trans (congrArg _ hshown.symm), fun m => (Json.onLine_ofMessage _ _ m).written,
    hcode.trans (recordLimit_le_iff hword), hfailure⟩

/-- A column file of two rows, of which the second is malformed. -/
def regularFile : ColumnFile :=
  { columns := [⟨"m", "Binary"⟩, ⟨"rest", "Binary"⟩]
    rowGroups := [[[some [5, 10, 1, 107, 16, 5], some [10, 1, 120]]], [[none, some [255]]]]
    metadata := [(Metadata.key, some "field_id: 3 field_id: -1")] }

/-- The file beside the descriptor set of its messages. -/
def regularDisk : Disk :=
  ⟨[("a.columns", .columns regularFile), ("a.set", .bytes Sample.regularSet)]⟩

/-- A command line for the text and the map of the messages. -/
def regularWords : List String :=
  ["--file=a.columns", "--descriptor-set=a.set", "--message=a.A", "--required=0,2"]

/-- What the command line asks for, with a limit. -/
def regularArguments (limit : Option Nat) : Arguments :=
  ⟨"a.columns", "a.set", "a.A", some "0,2", none, limit, false⟩

/-- The reader of the file. -/
def regularReader : Reader FileSource :=
  ⟨⟨.ofSize 1024, 2, regularFile.metadata, regularFile.rowGroups.flatten, [0, 1], none, none, 0⟩,
    Reader.regularReader.plan, .planned, none, 0⟩

/-- The settings of the command line. -/
theorem settings_regularArguments (limit : Option Nat) :
    (regularArguments limit).settings regularDisk [] = .ok ⟨"0,2", 1024, 0, 0⟩ := by
  have hload : Settings.load regularDisk none [] = .ok ⟨"", 1024, 0, 0⟩ := by decide +kernel
  have hcheck : Settings.check ⟨"0,2", 1024, 0, 0⟩ = .ok () := by rfl
  simp only [Arguments.settings, regularArguments, hload, Option.getD_some, hcheck]

/-- The file is found by its path. -/
theorem columnFile_regularDisk : regularDisk.columnFile "a.columns" = .ok regularFile := by rfl

/-- The reader of the command line is opened. -/
theorem openReader_regularArguments (limit : Option Nat) :
    (regularArguments limit).openReader regularDisk [] = .ok regularReader := by
  have hset : regularDisk.find? "a.set" = some (.bytes Sample.regularSet) := by decide +kernel
  have hschema : (regularArguments limit).schema regularDisk = .ok Sample.regular := by
    simp only [Arguments.schema, regularArguments, hset, Sample.ofDescriptorSet_regularSet,
      reportWithin]
  have hparse : Metadata.parse (Text.Utf8.encode "field_id: 3 field_id: -1") =
      .ok ⟨none, [3, -1]⟩ := by
    cbv
  have hreader : (regularArguments limit).reader regularDisk ⟨0, 0, 1024⟩ Sample.regular
      (.indices [0, 2]) = .ok regularReader := by
    have hresolve : (Selection.indices [0, 2]).resolve Sample.regular = .ok [1, 3] := by rfl
    have hopen : FileSource.ofFile regularFile ⟨0, 0, 1024⟩ = .ok regularReader.source := by rfl
    have hstored : StoredFields.ofSource regularReader.source = .ok ⟨[3, -1]⟩ := by
      have hmetadata : ColumnSource.metadata? regularReader.source Metadata.key =
          some (Text.Utf8.encode "field_id: 3 field_id: -1") := by rfl
      unfold StoredFields.ofSource
      rw [hmetadata]
      simp only [hparse]
      rfl
    simp only [Arguments.reader, hresolve, regularArguments, columnFile_regularDisk, hopen]
    unfold Reader.openNumbers
    rw [hstored]
    rfl
  rw [Arguments.openReader, settings_regularArguments, hschema]
  show reportWithin _ ((regularArguments limit).reader regularDisk ⟨0, 0, 1024⟩ Sample.regular
    (.indices [0, 2])) = _
  rw [hreader]
  rfl

/-- What the rows of the file give. -/
theorem resultsOf_regularFile :
    resultsOf regularReader.plan regularFile.rowGroups =
      [.ok ⟨[(1, .value (.string "x")), (3, .value (.map [(.string "k", .i32 5)]))]⟩,
        .error (.unknownFields 1 .invalidVarint)] := by
  cbv

/-- The line of the first message of the file. -/
def regularLine : String := "\x7b\"s\":\"x\",\"m\":\x7b\"k\":5\x7d\x7d\n"

/-- The first message is printed and the second row reported, or only the first message printed if
it is the limit. -/
theorem run_regularWords :
    run regularWords regularDisk [] =
        .failure regularLine
          (.within "Failed to read record 2" (.ofError (.unknownFields 1 .invalidVarint))) ∧
      (run ("--limit=1" :: regularWords) regularDisk []).output = regularLine ∧
      (run ("--limit=1" :: regularWords) regularDisk []).code = 0 := by
  have hwords : Arguments.read? regularWords = some (regularArguments none) := by decide +kernel
  have hlimited : Arguments.read? ("--limit=1" :: regularWords) =
      some (regularArguments (some 1)) := by
    decide +kernel
  have hshown : ∀ limit, ∀ m ∈ shown limit (resultsOf regularReader.plan regularFile.rowGroups),
      Serializes regularReader.plan.schema m := by
    intro limit m hm
    rw [resultsOf_regularFile] at hm
    obtain rfl := List.mem_singleton.1 (List.mem_of_mem_take hm)
    rfl
  have hline : linesOf regularReader.plan.schema
      [⟨[(1, .value (.string "x")), (3, .value (.map [(.string "k", .i32 5)]))]⟩] =
        regularLine := by
    decide +kernel
  have hprints := fun (words : List String) (limit : Option Nat)
      (h : Arguments.read? words = some (regularArguments limit)) =>
    run_prints_leading h rfl (openReader_regularArguments limit) (settings_regularArguments limit)
      columnFile_regularDisk (by rfl) (by decide) (fun _ => by decide) (hshown limit)
  simp only [resultsOf_regularFile] at hprints
  obtain ⟨-, -, hcode, hfailure⟩ := hprints _ _ hwords
  obtain ⟨houtput, -, hlimit, -⟩ := hprints _ _ hlimited
  refine ⟨?_, houtput.trans hline, hlimit.2 (.inr ⟨1, rfl, Nat.le_refl 1⟩)⟩
  have hne : (run regularWords regularDisk []).code ≠ 0 := by
    rw [Ne, hcode]
    decide
  obtain ⟨-, e, he, hrun⟩ := hfailure hne
  obtain rfl := Except.error.inj (Option.some.inj he)
  exact hrun.trans (congrArg (Outcome.failure · _) hline)

end CommandLine

end ColumnarRecords
