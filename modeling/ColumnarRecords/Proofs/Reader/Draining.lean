import ColumnarRecords.Proofs.Descriptor.Loading
import ColumnarRecords.Proofs.Projection.Columnwise
import ColumnarRecords.Proofs.Source.Prepared
import ColumnarRecords.Reader

/-!
# Draining a reader

A reader over rows in memory yields the messages of the rows in turn, up to the first row that has
none. `Reader.draw_eq_materialize` says what any number of calls of the iterator answer, and how far
the reader is when the first of them has answered that there is nothing more. The messages are those
of the whole rows, although the reader sees the planned columns only: `Plan.materialize_restrict`
says that the others do not matter.

The proof is a simulation. `Reader.StandsBefore` relates a reader and its source to the number of
rows read; a call of the iterator either takes it to the next row (`next?_of_row`) or ends the read
(`next?_of_end`), and a read that has ended stays so (`next?_of_ended`).
-/

namespace ColumnarRecords

open Descriptor

namespace Plan

/-- A selected column of a restricted record gives what the whole record gives there. -/
theorem bytesOf_restrict {r : Record} {columns : List Nat} {column : Nat} (h : column ∈ columns) :
    bytesOf (r.restrict columns) column = bytesOf r column := by
  unfold bytesOf
  rw [Record.column?_restrict, Record.width_restrict]
  cases hc : r.column? column with
  | none => rfl
  | some bytes => simp [h]

/-- The message of a record does not depend on the columns that the plan does not read. -/
theorem materialize_restrict (p : Plan) (r : Record) :
    p.materialize (r.restrict p.columns) = p.materialize r :=
  materialize_congr fun _ hcolumn => bytesOf_restrict hcolumn

end Plan

/-- The items of a list up to the first error, and this error. -/
def upToError {ε α : Type} : List (Except ε α) → List (Except ε α)
  | [] => []
  | .ok a :: rest => .ok a :: upToError rest
  | .error e :: _ => [.error e]

namespace Reader

/-- The answers of a number of calls of the iterator, and the reader after them. -/
def draw {σ : Type} [ColumnSource σ] :
    Nat → Reader σ → List (Option (Except ReadError Message)) × Reader σ
  | 0, r => ([], r)
  | count + 1, r =>
    let (answer, r) := r.next?
    let (answers, r) := draw count r
    (answer :: answers, r)

/-- A reader that follows a plan over rows in memory has read the first `k` of them and may go
on. -/
structure StandsBefore (rows : List Record) (plan : Plan) (k : Nat) (r : Reader MemorySource) :
    Prop where
  /-- The source's rows and columns were checked. -/
  consistent : r.source.Consistent
  /-- The source holds the rows. -/
  rows : r.source.rows = rows
  /-- The source gives the planned columns. -/
  selected : r.source.selected = some plan.columns
  /-- The source stands at the row read last. -/
  position : r.source.position = if k = 0 then none else some (k - 1)
  /-- The reader follows the plan. -/
  plan : r.plan = plan
  /-- The read has not ended. -/
  state : r.state = .planned ∨ r.state = .iterating
  /-- The rows read are counted. -/
  recordsRead : r.recordsRead = k

variable {rows : List Record} {plan : Plan} {k : Nat} {r : Reader MemorySource}

/-- The row that comes next is the first one that was not read. -/
theorem StandsBefore.nextPosition_eq (h : StandsBefore rows plan k r) :
    r.source.nextPosition = k := by
  rw [MemorySource.nextPosition, h.position]
  cases k <;> rfl

/-- The source goes to the next row. -/
theorem StandsBefore.advance_of_row (h : StandsBefore rows plan k r) (hk : k < rows.length) :
    ColumnSource.advance r.source =
      (.ok true, { r.source with position := some k, started := true }) := by
  have hlt : r.source.nextPosition < r.source.rows.length := by
    rwa [h.nextPosition_eq, h.rows]
  show r.source.advance = _
  rw [MemorySource.advance_of_lt hlt, h.nextPosition_eq]

/-- The source finds no row after the last. -/
theorem StandsBefore.advance_of_end (h : StandsBefore rows plan k r) (hk : rows.length ≤ k) :
    ColumnSource.advance r.source =
      (.ok false, { r.source with position := some rows.length, started := true }) := by
  have hle : r.source.rows.length ≤ r.source.nextPosition := by
    rwa [h.nextPosition_eq, h.rows]
  show r.source.advance = _
  rw [MemorySource.advance_of_le hle, ← h.rows]

/-- The reader has not failed. -/
theorem StandsBefore.state_ne_failed (h : StandsBefore rows plan k r) : r.state ≠ .failed := by
  rcases h.state with hs | hs <;> simp [hs]

/-- A reader before a row fetches it. -/
theorem StandsBefore.nextRecord_of_row (h : StandsBefore rows plan k r) (hk : k < rows.length) :
    r.nextRecord = (.ok true, { r with
      source := { r.source with position := some k, started := true }
      state := .iterating
      message := none
      recordsRead := r.recordsRead + 1 }) := by
  unfold nextRecord
  rw [h.advance_of_row hk]
  rcases h.state with hs | hs <;> rw [hs]

/-- A reader after the last row is at the end. -/
theorem StandsBefore.nextRecord_of_end (h : StandsBefore rows plan k r) (hk : rows.length ≤ k) :
    r.nextRecord = (.ok false, { r with
      source := { r.source with position := some rows.length, started := true }
      state := .exhausted
      message := none }) := by
  unfold nextRecord
  rw [h.advance_of_end hk]
  rcases h.state with hs | hs <;> rw [hs]

/-- A reader that has fetched a row builds the message of the whole row. -/
theorem currentValue_of_row (h : StandsBefore rows plan k r) {row : Record}
    (hrow : rows[k]? = some row) {r' : Reader MemorySource} (hr : r.nextRecord = (.ok true, r')) :
    r'.currentValue =
      match plan.materialize row with
      | .error e => (.error e, r'.fail)
      | .ok m => (.ok (some m), { r' with message := some m }) := by
  have hk : k < rows.length := (List.getElem?_eq_some_iff.1 hrow).1
  rw [h.nextRecord_of_row hk] at hr
  obtain rfl := (Prod.mk.inj hr).2
  -- The source presents the planned columns of the row, and no others matter to the message.
  have hcurrent : ColumnSource.current
      ({ r.source with position := some k, started := true } : MemorySource) =
      (.ok (some (row.restrict plan.columns)),
        { r.source with position := some k, started := true }) := by
    have hconsistent : MemorySource.Consistent
        { r.source with position := some k, started := true } := { h.consistent with }
    show (Except.ok (MemorySource.current? _), _) = _
    rw [hconsistent.current?_eq]
    simp only [h.rows, hrow, Option.map_some, MemorySource.present, h.selected]
  simp only [currentValue, build]
  rw [hcurrent]
  cases hm : plan.materialize row <;> simp only [h.plan, Plan.materialize_restrict, hm]

/-- A call of the iterator before a row answers with its message and leaves the reader before the
next row, or answers with its error and leaves the reader failed. -/
theorem next?_of_row (h : StandsBefore rows plan k r) {row : Record} (hrow : rows[k]? = some row) :
    match plan.materialize row with
    | .ok m => ∃ r', r.next? = (some (.ok m), r') ∧ StandsBefore rows plan (k + 1) r'
    | .error e =>
      ∃ r', r.next? = (some (.error e), r') ∧ r'.state = .failed ∧ r'.recordsRead = k + 1 := by
  have hk : k < rows.length := (List.getElem?_eq_some_iff.1 hrow).1
  have hnext := h.nextRecord_of_row hk
  have hvalue := currentValue_of_row h hrow hnext
  unfold next?
  rw [if_neg h.state_ne_failed, hnext]
  simp only [hvalue]
  cases plan.materialize row with
  | ok m =>
    have hread : r.recordsRead + 1 = k + 1 := congrArg (· + 1) h.recordsRead
    exact ⟨_, rfl, { h.consistent with }, h.rows, h.selected, rfl, h.plan, .inr rfl, hread⟩
  | error e => exact ⟨_, rfl, rfl, congrArg (· + 1) h.recordsRead⟩

/-- A call of the iterator after the last row answers that there is nothing more. -/
theorem next?_of_end (h : StandsBefore rows plan k r) (hk : rows.length ≤ k) :
    ∃ r', r.next? = (none, r') ∧ r'.state = .exhausted ∧ r'.recordsRead = k := by
  unfold next?
  rw [if_neg h.state_ne_failed, h.nextRecord_of_end hk]
  exact ⟨_, rfl, rfl, h.recordsRead⟩

/-- A read that has ended stays ended. -/
theorem next?_of_ended {σ : Type} [ColumnSource σ] {r : Reader σ}
    (h : r.state = .exhausted ∨ r.state = .failed) : r.next? = (none, r) := by
  unfold next? nextRecord
  rcases h with hs | hs <;> simp [hs]

/-- Calls after the end of a read answer that there is nothing more and change nothing. -/
theorem draw_of_ended {σ : Type} [ColumnSource σ] {r : Reader σ}
    (h : r.state = .exhausted ∨ r.state = .failed) (count : Nat) :
    r.draw count = (List.replicate count none, r) := by
  induction count with
  | zero => rfl
  | succ count ih =>
    unfold draw
    rw [next?_of_ended h]
    simp only [ih, List.replicate_succ]

/-- A call more is the call and the calls after it. -/
theorem draw_succ {σ : Type} [ColumnSource σ] {r r' : Reader σ}
    {answer : Option (Except ReadError Message)} (h : r.next? = (answer, r')) (count : Nat) :
    r.draw (count + 1) = (answer :: (r'.draw count).1, (r'.draw count).2) := by
  rw [draw, h]

/-- What calls of the iterator answer when they begin before the `k`th row: the items of the rows
left, and then nothing more. The first answer of nothing more finds the items counted, and the
reader failed if the last of them was an error. -/
theorem draw_of_standsBefore (h : StandsBefore rows plan k r) (count : Nat) :
    let items := upToError ((rows.drop k).map plan.materialize)
    (r.draw count).1 =
        (items.take count).map some ++ List.replicate (count - items.length) none ∧
      (items.length < count →
        (r.draw count).2.recordsRead = k + items.length ∧
          (r.draw count).2.state = if items.all Except.isOk then .exhausted else .failed) := by
  -- Each call takes the reader one row further, so the induction is for any row it stands before.
  induction count generalizing k r with
  | zero => exact ⟨by simp [draw], fun hlt => absurd hlt (Nat.not_lt_zero _)⟩
  | succ count ih =>
    intro items
    cases hrow : rows[k]? with
    | none =>
      have hk : rows.length ≤ k := List.getElem?_eq_none_iff.1 hrow
      have hitems : items = [] := by
        simp only [items, List.drop_eq_nil_of_le hk, List.map_nil, upToError]
      obtain ⟨r', hnext, hstate, hread⟩ := next?_of_end h hk
      rw [draw_succ hnext, draw_of_ended (.inl hstate), hitems]
      exact ⟨by simp [List.replicate_succ], fun _ => ⟨hread, hstate⟩⟩
    | some row =>
      have hdrop : rows.drop k = row :: rows.drop (k + 1) := by
        obtain ⟨hlt, rfl⟩ := List.getElem?_eq_some_iff.1 hrow
        exact List.drop_eq_getElem_cons hlt
      -- A row with an error ends the read at once; one with a message leaves the rows after it.
      have hstep := next?_of_row h hrow
      cases hm : plan.materialize row with
      | error e =>
        rw [hm] at hstep
        obtain ⟨r', hnext, hstate, hread⟩ := hstep
        have hitems : items = [.error e] := by
          simp only [items, hdrop, List.map_cons, hm, upToError]
        rw [draw_succ hnext, draw_of_ended (.inr hstate), hitems]
        exact ⟨by simp, fun _ => ⟨hread, hstate⟩⟩
      | ok m =>
        rw [hm] at hstep
        obtain ⟨r', hnext, hbefore⟩ := hstep
        have hitems :
            items = .ok m :: upToError ((rows.drop (k + 1)).map plan.materialize) := by
          simp only [items, hdrop, List.map_cons, hm, upToError]
        obtain ⟨hanswers, hend⟩ := ih hbefore
        rw [draw_succ hnext, hitems]
        refine ⟨by simp [hanswers], fun hlt => ?_⟩
        rw [List.length_cons] at hlt ⊢
        obtain ⟨hread, hstate⟩ := hend (by omega)
        refine ⟨by rw [hread]; omega, ?_⟩
        rw [hstate, List.all_cons]
        rfl

/-- A reader that is opened follows the plan for the stored fields, has restricted its source to the
planned columns and has read nothing. -/
theorem openNumbers_eq_ok {σ : Type} [ColumnSource σ] {source : σ} {s : Schema}
    {numbers : List Nat} {r : Reader σ} (h : openNumbers source s numbers = .ok r) :
    ∃ stored, StoredFields.ofSource source = .ok stored ∧
      Plan.ofNumbers s numbers stored = .ok r.plan ∧
      ColumnSource.selectColumns r.plan.columns source = (.ok (), r.source) ∧
      r = ⟨r.source, r.plan, .planned, none, 0⟩ := by
  unfold openNumbers at h
  split at h
  · cases h
  · rename_i stored hstored
    split at h
    · split at h
      · cases h
      · rename_i plan hplan
        split at h
        · cases h
        · rename_i selected hselect
          obtain rfl := Except.ok.inj h
          exact ⟨stored, hstored, hplan, hselect, rfl⟩
    · cases h

/-- A reader for a selection is one for the fields that are selected. -/
theorem openNumbers_of_ofSource {σ : Type} [ColumnSource σ] {source : σ} {s : Schema}
    {selection : Selection} {r : Reader σ} (h : ofSource source s selection = .ok r) :
    ∃ numbers, selection.resolve s = .ok numbers ∧ openNumbers source s numbers = .ok r := by
  unfold ofSource at h
  split at h
  · cases h
  · rename_i numbers hnumbers
    exact ⟨numbers, hnumbers, h⟩

/-- A reader opened on a source restricts it to the planned columns and has read nothing. -/
theorem eq_of_ofSource {source : MemorySource} {s : Schema} {selection : Selection}
    {r : Reader MemorySource} (h : ofSource source s selection = .ok r) :
    r = ⟨{ source with selected := some r.plan.columns }, r.plan, .planned, none, 0⟩ := by
  obtain ⟨numbers, -, hopen⟩ := openNumbers_of_ofSource h
  obtain ⟨stored, -, -, hselect, hr⟩ := openNumbers_eq_ok hopen
  rw [← (MemorySource.eq_of_selectColumns hselect).2]
  exact hr

/-- A reader opened on a prepared source stands before its first row. -/
theorem standsBefore_of_ofSource {source : MemorySource} (hsource : source.Prepared) {s : Schema}
    {selection : Selection} (h : ofSource source s selection = .ok r) :
    StandsBefore source.rows r.plan 0 r := by
  obtain ⟨numbers, -, hopen⟩ := openNumbers_of_ofSource h
  obtain ⟨stored, -, -, hselect, -⟩ := openNumbers_eq_ok hopen
  have hconsistent : r.source.Consistent := (hsource.selectColumns _ hselect).consistent
  rw [eq_of_ofSource h] at hconsistent ⊢
  exact ⟨hconsistent, rfl, rfl, hsource.position_eq_none, rfl, .inl rfl, rfl⟩

/-- Calls of the iterator over rows in memory answer with the messages of the whole rows in turn, up
to the first error and with it, and then that there is nothing more. When they first have answered
so, the records read are as many as the items, and the reader has failed if one of the items was an
error and is exhausted if none was. -/
theorem draw_eq_materialize {source : MemorySource} (hsource : source.Prepared) {s : Schema}
    {selection : Selection} (h : ofSource source s selection = .ok r) (count : Nat) :
    let items := upToError (source.rows.map r.plan.materialize)
    (r.draw count).1 =
        (items.take count).map some ++ List.replicate (count - items.length) none ∧
      (items.length < count →
        (r.draw count).2.recordsRead = items.length ∧
          (r.draw count).2.state = if items.all Except.isOk then .exhausted else .failed) := by
  have hdraw := draw_of_standsBefore (standsBefore_of_ofSource hsource h) count
  simp only [List.drop_zero, Nat.zero_add] at hdraw
  exact hdraw

/-- A source of two rows that stores the regular map, of which the second row is malformed. -/
def regularSource : MemorySource :=
  ⟨2, [⟨[[5, 10, 1, 107, 16, 5], [10, 1, 120]]⟩, ⟨[[], [255]]⟩],
    [(Metadata.key, [102, 105, 101, 108, 100, 95, 105, 100, 58, 32, 51, 32, 102, 105, 101, 108, 100,
      95, 105, 100, 58, 32, 45, 49])], none, none, false⟩

/-- A reader of the map and the text of the regular message. -/
def regularReader : Reader MemorySource :=
  ⟨{ regularSource with selected := some [0, 1] },
    ⟨Sample.regular, [(0, Sample.field "a.A." "m" 3 (.message 1) (.map 1) (.message .empty))],
      some 1, [Sample.field "a.A." "s" 1 (.scalar .string) .single (.string "")], [1, 3], 2⟩,
    .planned, none, 0⟩

/-- The fields that the metadata says are stored, whatever the rows are. -/
theorem stored_regularSource (rows : List Record) :
    StoredFields.ofSource { regularSource with rows := rows } = .ok ⟨[3, -1]⟩ := by
  have hparse : Metadata.parse [102, 105, 101, 108, 100, 95, 105, 100, 58, 32, 51, 32, 102, 105,
      101, 108, 100, 95, 105, 100, 58, 32, 45, 49] = .ok ⟨none, [3, -1]⟩ := by
    cbv
  have hmetadata : ColumnSource.metadata? { regularSource with rows := rows } Metadata.key =
      some [102, 105, 101, 108, 100, 95, 105, 100, 58, 32, 51, 32, 102, 105, 101, 108, 100, 95, 105,
        100, 58, 32, 45, 49] := rfl
  unfold StoredFields.ofSource
  rw [hmetadata]
  simp only [hparse]
  rfl

/-- The reader is opened on the source, whatever the rows are. -/
theorem ofSource_regularSource (rows : List Record) :
    ofSource { regularSource with rows := rows } Sample.regular (.indices [0, 2]) =
      .ok { regularReader with source := { regularReader.source with rows := rows } } := by
  unfold ofSource openNumbers
  rw [stored_regularSource rows]
  rfl

/-- The first row of the source gives its message, the second an error, and then there is nothing
more. -/
theorem draw_regularReader :
    (regularReader.draw 3).1 =
      [some (.ok ⟨[(1, .value (.string "x")), (3, .value (.map [(.string "k", .i32 5)]))]⟩),
        some (.error (.unknownFields 1 .invalidVarint)), none] := by
  have hempty : { regularSource with rows := [] }.Prepared := .addMetadata _ _ (.ofWidth 2)
  have hone : { regularSource with
      rows := [⟨[[5, 10, 1, 107, 16, 5], [10, 1, 120]]⟩] }.Prepared :=
    .push ⟨[[5, 10, 1, 107, 16, 5], [10, 1, 120]]⟩ hempty rfl
  have hprepared : regularSource.Prepared := .push ⟨[[], [255]]⟩ hone rfl
  have hopen : ofSource regularSource Sample.regular (.indices [0, 2]) = .ok regularReader :=
    ofSource_regularSource regularSource.rows
  rw [(draw_eq_materialize hprepared hopen 3).1]
  have hfirst : regularReader.plan.materialize ⟨[[5, 10, 1, 107, 16, 5], [10, 1, 120]]⟩ =
      .ok ⟨[(1, .value (.string "x")), (3, .value (.map [(.string "k", .i32 5)]))]⟩ := by
    cbv
  have hsecond : regularReader.plan.materialize ⟨[[], [255]]⟩ =
      .error (.unknownFields 1 .invalidVarint) := by
    cbv
  simp only [regularSource, List.map_cons, hfirst, hsecond]
  rfl

end Reader

end ColumnarRecords
