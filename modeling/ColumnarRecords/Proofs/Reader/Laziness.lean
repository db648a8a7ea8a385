import ColumnarRecords.Proofs.Reader.Lifecycle

/-!
# Messages are built when they are asked for

A reader over rows in memory builds the message of a row when it is asked for and keeps it until the
next row is fetched. `Reader.lazy_of_ofSource` says that this cannot be told from the answers: a
message or an error is always that of the row fetched last, a malformed row whose message is not
asked for does no harm, and questions for messages that are answered without an error can be left
out of a run without changing the other answers.

The proof is a refinement. `Standing` is a reader that keeps nothing: it knows how many rows were
fetched and what each row would give. A reader over rows answers as the one that keeps nothing does
(`Stands.askAll`), as a message that is kept is that of the row at which the reader stands; what is
said of the answers is then said of `Standing`, for which a question without an error is no step at
all (`Standing.ask_currentValue_snd`).
-/

namespace ColumnarRecords

open ColumnSource

namespace Reader

/-- The result of decoding that an answer gives to the caller. -/
def Answer.decoded? : Answer → Option (Except ReadError Message)
  | .value (.ok (some m)) => some (.ok m)
  | .value (.error e) => some (.error e)
  | .item (some result) => some result
  | _ => none

/-- A row was fetched. -/
def Answer.isFetch : Answer → Bool
  | .fetched (.ok true) | .item (some _) => true
  | _ => false

/-- The rows whose messages calls ask for, of a number of rows of which some have been fetched. A
question for a message is for the row fetched last, the iterator asks for the row that it fetches,
and after the last row nothing is asked for. -/
def requested (count : Nat) : Nat → List Call → List Nat
  | _, [] => []
  | fetched, .nextRecord :: rest =>
    if fetched < count then requested count (fetched + 1) rest else []
  | 0, .currentValue :: rest => requested count 0 rest
  | fetched + 1, .currentValue :: rest => fetched :: requested count (fetched + 1) rest
  | fetched, .next :: rest =>
    if fetched < count then fetched :: requested count (fetched + 1) rest else []

/-! ## A reader that keeps nothing -/

/-- Where a reader over rows stands, by the number of rows that it has fetched. -/
inductive Standing where
  /-- The read goes on. -/
  | reading (fetched : Nat)
  /-- There are no more rows. -/
  | exhausted (fetched : Nat)
  /-- An error ended the read. -/
  | failed (fetched : Nat)
deriving DecidableEq, Repr

namespace Standing

/-- The number of rows fetched. -/
def fetched : Standing → Nat
  | reading k | exhausted k | failed k => k

/-- What a reader of rows that give results answers if it keeps nothing, and where it stands
then. -/
def ask (results : List (Except ReadError Message)) : Call → Standing → Answer × Standing
  | call, exhausted k => (call.whenExhausted, exhausted k)
  | call, failed k => (call.whenFailed, failed k)
  | .nextRecord, reading k =>
    if k < results.length then (.fetched (.ok true), reading (k + 1))
    else (.fetched (.ok false), exhausted k)
  | .currentValue, reading 0 => (.value (.ok none), reading 0)
  | .currentValue, reading (k + 1) =>
    match results[k]? with
    | some (.ok m) => (.value (.ok (some m)), reading (k + 1))
    | some (.error e) => (.value (.error e), failed (k + 1))
    | none => (.value (.ok none), reading (k + 1))
  | .next, reading k =>
    match results[k]? with
    | some (.ok m) => (.item (some (.ok m)), reading (k + 1))
    | some (.error e) => (.item (some (.error e)), failed (k + 1))
    | none => (.item none, exhausted k)

/-- The answers to calls one after another, and where the reader stands after them. -/
def askAll (results : List (Except ReadError Message)) :
    List Call → Standing → List Answer × Standing
  | [], st => ([], st)
  | call :: rest, st =>
    let (answer, st) := ask results call st
    let (answers, st) := askAll results rest st
    (answer :: answers, st)

end Standing

/-! ## Readers answer so -/

/-- A reader that follows a plan over rows stands somewhere. A message that it keeps is that of the
row fetched last. -/
inductive Stands (rows : List Record) (plan : Plan) : Standing → Reader MemorySource → Prop where
  /-- It may go on. -/
  | reading {k : Nat} {r : Reader MemorySource} (hbefore : StandsBefore rows plan k r)
    (hplanned : r.state = .planned ↔ k = 0)
    (hmessage : ∀ m, r.message = some m → (rows.map plan.materialize)[k - 1]? = some (.ok m)) :
    Stands rows plan (.reading k) r
  /-- It has come to the end. -/
  | exhausted {k : Nat} {r : Reader MemorySource} (hstate : r.state = .exhausted)
    (hread : r.recordsRead = k) : Stands rows plan (.exhausted k) r
  /-- It has failed. -/
  | failed {k : Nat} {r : Reader MemorySource} (hstate : r.state = .failed)
    (hread : r.recordsRead = k) : Stands rows plan (.failed k) r

variable {rows : List Record} {plan : Plan} {k : Nat} {r : Reader MemorySource}

/-- A reader fetches the next row, or comes to the end, and keeps no message then. -/
theorem StandsBefore.nextRecord_stands (h : StandsBefore rows plan k r) :
    (k < rows.length → r.nextRecord.1 = .ok true ∧ r.nextRecord.2.message = none ∧
      Stands rows plan (.reading (k + 1)) r.nextRecord.2) ∧
    (rows.length ≤ k → r.nextRecord.1 = .ok false ∧
      Stands rows plan (.exhausted k) r.nextRecord.2) := by
  refine ⟨fun hlt => ?_, fun hle => ?_⟩
  · rw [h.nextRecord_of_row hlt]
    have hread : r.recordsRead + 1 = k + 1 := congrArg (· + 1) h.recordsRead
    exact ⟨rfl, rfl, .reading
      ⟨{ h.consistent with }, h.rows, h.selected, rfl, h.plan, .inr rfl, hread⟩ (by simp) nofun⟩
  · rw [h.nextRecord_of_end hle]
    exact ⟨rfl, .exhausted rfl h.recordsRead⟩

/-- The current row of a reader that has fetched one. -/
theorem StandsBefore.current (h : StandsBefore rows plan (k + 1) r) :
    ColumnSource.current r.source =
      (.ok ((rows[k]?).map fun row => row.restrict plan.columns), r.source) := by
  have hposition : r.source.position = some k := h.position
  have hpresent : r.source.present = fun row => row.restrict plan.columns := by
    funext row
    simp only [MemorySource.present, h.selected]
  show (Except.ok r.source.current?, r.source) = _
  rw [h.consistent.current?_eq, hposition, h.rows, hpresent]

/-- A reader that has fetched a row and keeps no message of it builds the message of the row. -/
theorem StandsBefore.build_eq (h : StandsBefore rows plan (k + 1) r) :
    r.build =
      match (rows.map plan.materialize)[k]? with
      | some (.ok m) => (.ok (some m), { r with message := some m })
      | some (.error e) => (.error e, r.fail)
      | none => (.ok none, r) := by
  unfold build
  rw [h.current, List.getElem?_map]
  cases rows[k]? with
  | none => rfl
  | some row =>
    have hrow : r.plan.materialize (row.restrict plan.columns) = plan.materialize row := by
      rw [h.plan, Plan.materialize_restrict]
    simp only [Option.map_some, hrow]
    cases plan.materialize row <;> rfl

/-- A question for a message is answered as by a reader that keeps none. -/
theorem StandsBefore.currentValue_stands (h : StandsBefore rows plan k r)
    (hplanned : r.state = .planned ↔ k = 0)
    (hmessage : ∀ m, r.message = some m → (rows.map plan.materialize)[k - 1]? = some (.ok m)) :
    let answer := Standing.ask (rows.map plan.materialize) .currentValue (.reading k)
    .value r.currentValue.1 = answer.1 ∧ Stands rows plan answer.2 r.currentValue.2 := by
  unfold currentValue
  cases k with
  | zero =>
    rw [hplanned.2 rfl]
    exact ⟨rfl, .reading h hplanned hmessage⟩
  | succ k =>
    have hstate : r.state = .iterating := h.state.resolve_left fun hs => by
      simpa using hplanned.1 hs
    rw [hstate]
    simp only [Standing.ask]
    cases hm : r.message with
    | some m =>
      -- The message that is kept is the one that would be built.
      have hresult : (rows.map plan.materialize)[k]? = some (.ok m) := hmessage m hm
      rw [hresult]
      exact ⟨rfl, .reading h hplanned hmessage⟩
    | none =>
      simp only [h.build_eq]
      cases hresult : (rows.map plan.materialize)[k]? with
      | none => exact ⟨rfl, .reading h hplanned hmessage⟩
      | some result =>
        cases result with
        | error e => exact ⟨rfl, .failed rfl h.recordsRead⟩
        | ok m =>
          refine ⟨rfl, .reading { h with } hplanned fun m' hm' => ?_⟩
          obtain rfl := Option.some.inj hm'
          exact hresult

/-- The iterator answers as that of a reader that keeps nothing. -/
theorem StandsBefore.next?_stands (h : StandsBefore rows plan k r) :
    let answer := Standing.ask (rows.map plan.materialize) .next (.reading k)
    .item r.next?.1 = answer.1 ∧ Stands rows plan answer.2 r.next?.2 := by
  obtain ⟨hfetch, hend⟩ := h.nextRecord_stands
  unfold next?
  rw [if_neg h.state_ne_failed]
  simp only [Standing.ask]
  rcases Nat.lt_or_ge k rows.length with hlt | hle
  · obtain ⟨hanswer, hnone, hstands⟩ := hfetch hlt
    rcases hnext : r.nextRecord with ⟨answer, r'⟩
    rw [hnext] at hanswer hnone hstands
    simp only at hanswer hnone hstands
    rw [hanswer]
    -- The iterator then asks for the message of the row that was fetched.
    cases hstands with
    | reading hbefore hplanned hmessage =>
      obtain ⟨hvalue, hafter⟩ := hbefore.currentValue_stands hplanned hmessage
      have hresult : (rows.map plan.materialize)[k]? = some (plan.materialize rows[k]) := by
        rw [List.getElem?_map, List.getElem?_eq_getElem hlt, Option.map_some]
      simp only [Standing.ask, hresult] at hvalue hafter ⊢
      rcases hcurrent : r'.currentValue with ⟨value, r''⟩
      rw [hcurrent] at hvalue hafter
      cases hm : plan.materialize rows[k] with
      | error e =>
        rw [hm] at hvalue hafter
        obtain rfl := Answer.value.inj hvalue
        exact ⟨rfl, hafter⟩
      | ok m =>
        rw [hm] at hvalue hafter
        obtain rfl := Answer.value.inj hvalue
        exact ⟨rfl, hafter⟩
  · obtain ⟨hanswer, hstands⟩ := hend hle
    have hresult : (rows.map plan.materialize)[k]? = none := by
      rw [List.getElem?_eq_none_iff, List.length_map]
      exact hle
    rcases hnext : r.nextRecord with ⟨answer, r'⟩
    rw [hnext] at hanswer hstands
    simp only at hanswer hstands
    rw [hanswer, hresult]
    exact ⟨rfl, hstands⟩

/-- A reader answers a call as the one that keeps nothing, and then stands where this does. -/
theorem Stands.ask {st : Standing} (h : Stands rows plan st r) (call : Call) :
    (Reader.ask call r).1 = (st.ask (rows.map plan.materialize) call).1 ∧
      Stands rows plan (st.ask (rows.map plan.materialize) call).2 (Reader.ask call r).2 := by
  -- Once the read has ended both answer by their states alone.
  cases h with
  | exhausted hstate hread =>
    rw [ask_of_exhausted hstate]
    cases call <;> exact ⟨rfl, .exhausted hstate hread⟩
  | failed hstate hread =>
    rw [ask_of_failed hstate]
    cases call <;> exact ⟨rfl, .failed hstate hread⟩
  | @reading k r hbefore hplanned hmessage =>
    cases call with
    | currentValue => exact hbefore.currentValue_stands hplanned hmessage
    | next => exact hbefore.next?_stands
    | nextRecord =>
      obtain ⟨hfetch, hend⟩ := hbefore.nextRecord_stands
      simp only [Standing.ask, List.length_map]
      rcases Nat.lt_or_ge k rows.length with hlt | hle
      · obtain ⟨hanswer, -, hstands⟩ := hfetch hlt
        rw [if_pos hlt]
        exact ⟨congrArg Answer.fetched hanswer, hstands⟩
      · obtain ⟨hanswer, hstands⟩ := hend hle
        rw [if_neg (Nat.not_lt.2 hle)]
        exact ⟨congrArg Answer.fetched hanswer, hstands⟩

/-- A reader answers calls as the one that keeps nothing, and then stands where this does. -/
theorem Stands.askAll {st : Standing} (h : Stands rows plan st r) (calls : List Call) :
    (Reader.askAll calls r).1 = (st.askAll (rows.map plan.materialize) calls).1 ∧
      Stands rows plan (st.askAll (rows.map plan.materialize) calls).2
        (Reader.askAll calls r).2 := by
  induction calls generalizing st r with
  | nil => exact ⟨rfl, h⟩
  | cons call rest ih =>
    obtain ⟨hanswer, hafter⟩ := h.ask call
    obtain ⟨hanswers, hstands⟩ := ih hafter
    exact ⟨congrArg₂ List.cons hanswer hanswers, hstands⟩

/-- A reader has failed where the one that keeps nothing has. -/
theorem Stands.state_eq_failed_iff {st : Standing} (h : Stands rows plan st r) :
    r.state = .failed ↔ ∃ k, st = .failed k := by
  cases h with
  | reading hbefore hplanned hmessage =>
    exact iff_of_false hbefore.state_ne_failed (by simp)
  | exhausted hstate hread => exact iff_of_false (by simp [hstate]) (by simp)
  | failed hstate hread => exact iff_of_true hstate ⟨_, rfl⟩

/-- A reader has read as many rows as the one that keeps nothing has fetched. -/
theorem Stands.recordsRead {st : Standing} (h : Stands rows plan st r) :
    r.recordsRead = st.fetched := by
  cases h with
  | reading hbefore hplanned hmessage => exact hbefore.recordsRead
  | exhausted hstate hread | failed hstate hread => exact hread

/-! ## What a reader that keeps nothing answers -/

namespace Standing

variable {results : List (Except ReadError Message)}

/-- A question for a message that is answered without an error changes nothing. -/
theorem ask_currentValue_snd {st : Standing}
    (h : (st.ask results .currentValue).1.error? = none) :
    (st.ask results .currentValue).2 = st := by
  cases st with
  | exhausted k | failed k => rfl
  | reading k =>
    cases k with
    | zero => rfl
    | succ k =>
      simp only [ask] at h ⊢
      cases hresult : results[k]? with
      | none => rfl
      | some result =>
        rw [hresult] at h
        cases result with
        | ok m => rfl
        | error e => cases h

/-- A call counts the row that it fetches. -/
theorem fetched_ask (call : Call) (st : Standing) :
    (st.ask results call).2.fetched =
      st.fetched + [(st.ask results call).1].countP Answer.isFetch := by
  cases st with
  | exhausted k | failed k => cases call <;> rfl
  | reading k =>
    cases call with
    | nextRecord =>
      simp only [ask]
      split <;> rfl
    | currentValue =>
      cases k with
      | zero => rfl
      | succ k =>
        simp only [ask]
        rcases results[k]? with _ | _ | _ <;> rfl
    | next =>
      simp only [ask]
      rcases results[k]? with _ | _ | _ <;> rfl

/-- Calls count the rows that they fetch. -/
theorem fetched_askAll (calls : List Call) (st : Standing) :
    (st.askAll results calls).2.fetched =
      st.fetched + (st.askAll results calls).1.countP Answer.isFetch := by
  induction calls generalizing st with
  | nil => rfl
  | cons call rest ih =>
    simp only [askAll]
    rw [ih, fetched_ask, Nat.add_assoc, ← List.countP_append]
    rfl

/-- What a call gives of a message is the result of the row fetched last, unless the reader had
failed before. -/
theorem getElem?_of_decoded? {call : Call} {st : Standing} (h : ∀ k, st ≠ .failed k)
    {result : Except ReadError Message} (hresult : (st.ask results call).1.decoded? = some result) :
    ∃ j, (st.ask results call).2.fetched = j + 1 ∧ results[j]? = some result := by
  cases st with
  | failed k => exact absurd rfl (h k)
  | exhausted k => cases call <;> cases hresult
  | reading k =>
    cases call with
    | nextRecord =>
      simp only [ask] at hresult
      split at hresult <;> cases hresult
    | currentValue =>
      cases k with
      | zero => cases hresult
      | succ k =>
        simp only [ask] at hresult ⊢
        cases hrow : results[k]? with
        | none =>
          rw [hrow] at hresult
          cases hresult
        | some result' =>
          rw [hrow] at hresult
          cases result' <;> exact ⟨k, rfl, hrow.trans hresult⟩
    | next =>
      simp only [ask] at hresult ⊢
      cases hrow : results[k]? with
      | none =>
        rw [hrow] at hresult
        cases hresult
      | some result' =>
        rw [hrow] at hresult
        cases result' <;> exact ⟨k, rfl, hrow.trans hresult⟩

/-- A reader that has failed stays so. -/
theorem askAll_failed (calls : List Call) (k : Nat) :
    askAll results calls (.failed k) = (calls.map Call.whenFailed, .failed k) := by
  induction calls with
  | nil => rfl
  | cons call rest ih => cases call <;> simp only [askAll, ask, ih, List.map_cons]

/-- A reader that has come to the end stays so. -/
theorem askAll_exhausted (calls : List Call) (k : Nat) :
    askAll results calls (.exhausted k) = (calls.map Call.whenExhausted, .exhausted k) := by
  induction calls with
  | nil => rfl
  | cons call rest ih => cases call <;> simp only [askAll, ask, ih, List.map_cons]

/-- A call that goes on from some row leads to an error exactly if the reader has failed after
it. -/
theorem error?_ask_isSome_iff (call : Call) (k : Nat) :
    (ask results call (.reading k)).1.error?.isSome ↔
      ∃ n, (ask results call (.reading k)).2 = .failed n := by
  cases call with
  | nextRecord =>
    simp only [ask]
    split <;> simp [Answer.error?]
  | currentValue =>
    cases k with
    | zero => simp [ask, Answer.error?]
    | succ k =>
      simp only [ask]
      rcases results[k]? with _ | _ | _ <;> simp [Answer.error?]
  | next =>
    simp only [ask]
    rcases results[k]? with _ | _ | _ <;> simp [Answer.error?]

/-- Calls give an error exactly if the reader has failed after them. -/
theorem exists_error_iff (calls : List Call) (k : Nat) :
    (∃ a ∈ (askAll results calls (.reading k)).1, a.error?.isSome) ↔
      ∃ n, (askAll results calls (.reading k)).2 = .failed n := by
  induction calls generalizing k with
  | nil => simp [askAll]
  | cons call rest ih =>
    have hfirst := @error?_ask_isSome_iff results call k
    simp only [askAll, List.mem_cons, exists_eq_or_imp, hfirst]
    cases (ask results call (.reading k)).2 with
    | reading k' => simp [ih k']
    | failed k' => simp [askAll_failed]
    | exhausted k' =>
      have hnone : ∀ call : Call, call.whenExhausted.error? = none := by
        intro call
        cases call <;> rfl
      simp [askAll_exhausted, hnone]

/-- The reader has failed after calls exactly if one of the rows asked for gives an error. -/
theorem askAll_eq_failed_iff (calls : List Call) (k : Nat) :
    (∃ n, (askAll results calls (.reading k)).2 = .failed n) ↔
      ∃ j ∈ requested results.length k calls, ∃ e, results[j]? = some (.error e) := by
  -- The first malformed row that is asked for ends the read; those asked for later do not matter.
  induction calls generalizing k with
  | nil => simp [askAll, requested]
  | cons call rest ih =>
    cases call with
    | nextRecord =>
      simp only [askAll, ask, requested]
      split
      · exact ih (k + 1)
      · simp [askAll_exhausted]
    | currentValue =>
      cases k with
      | zero => exact ih 0
      | succ k =>
        simp only [askAll, ask, requested, List.mem_cons, exists_eq_or_imp]
        rcases results[k]? with _ | e | m
        · simpa using ih (k + 1)
        · simp [askAll_failed]
        · simpa using ih (k + 1)
    | next =>
      simp only [askAll, ask, requested]
      by_cases hlt : k < results.length
      · rw [if_pos hlt]
        simp only [List.mem_cons, exists_eq_or_imp]
        rw [List.getElem?_eq_getElem hlt]
        rcases results[k] with e | m
        · simp [askAll_failed]
        · simpa using ih (k + 1)
      · rw [if_neg hlt, List.getElem?_eq_none (Nat.not_lt.1 hlt)]
        simp [askAll_exhausted]

/-- Leaving out questions for messages that are answered without an error changes no other
answer. -/
theorem askAll_kept {marked : List (Call × Bool)} {st : Standing}
    (h : ∀ x ∈ marked.zip (st.askAll results (marked.map Prod.fst)).1, x.1.2 = false →
      x.1.1 = .currentValue ∧ x.2.error? = none) :
    (st.askAll results ((marked.filter Prod.snd).map Prod.fst)).1 =
      ((marked.zip (st.askAll results (marked.map Prod.fst)).1).filter fun x => x.1.2).map
        Prod.snd := by
  induction marked generalizing st with
  | nil => rfl
  | cons mark rest ih =>
    obtain ⟨call, keep⟩ := mark
    simp only [List.map_cons, askAll, List.zip_cons_cons, List.mem_cons, forall_eq_or_imp] at h ⊢
    obtain ⟨hfirst, hrest⟩ := h
    have hothers := ih hrest
    cases keep with
    | true => simp [askAll, hothers]
    | false =>
      -- The calls after the one that is left out start from where it did.
      obtain ⟨rfl, hnone⟩ := hfirst rfl
      rw [ask_currentValue_snd hnone] at hothers ⊢
      simpa using hothers

end Standing

/-! ## What a reader answers -/

/-- It cannot be told from the answers of a reader over rows when it builds a message. -/
structure Lazy (rows : List Record) (r : Reader MemorySource) : Prop where
  /-- The rows fetched are counted. -/
  recordsRead : ∀ calls,
    (askAll calls r).2.recordsRead = (askAll calls r).1.countP Answer.isFetch
  /-- The message or the error that a call gives, before the reader has failed, is that of the row
  fetched last. -/
  decoded : ∀ earlier call result, (askAll earlier r).2.state ≠ .failed →
    (ask call (askAll earlier r).2).1.decoded? = some result →
    ∃ j row, (askAll (earlier ++ [call]) r).1.countP Answer.isFetch = j + 1 ∧
      rows[j]? = some row ∧ r.plan.materialize row = result
  /-- There is an error in a run exactly if one of the rows whose messages are asked for is
  malformed; the reader has then failed. -/
  failure : ∀ calls, ((∃ a ∈ (askAll calls r).1, a.error?.isSome) ↔
      (askAll calls r).2.state = .failed) ∧
    ((askAll calls r).2.state = .failed ↔
      ∃ j ∈ requested rows.length 0 calls, ∃ row e, rows[j]? = some row ∧
        r.plan.materialize row = .error e)
  /-- Of calls that are marked as kept or left out, the ones that are kept are answered alike with
  and without the others, if these are questions for messages that are answered without an error. -/
  kept : ∀ marked : List (Call × Bool),
    (∀ x ∈ marked.zip (askAll (marked.map Prod.fst) r).1, x.1.2 = false →
      x.1.1 = .currentValue ∧ x.2.error? = none) →
    (askAll ((marked.filter Prod.snd).map Prod.fst) r).1 =
      ((marked.zip (askAll (marked.map Prod.fst) r).1).filter fun x => x.1.2).map Prod.snd

/-- A reader over rows in memory gives the messages of the rows at which it stands, whenever it
builds them: rows whose messages are not asked for do no harm, and asking for one more often or less
changes no other answer. -/
theorem lazy_of_ofSource {source : MemorySource} (hsource : source.Prepared) {s : Schema}
    {selection : Selection} (h : ofSource source s selection = .ok r) : Lazy source.rows r := by
  obtain ⟨hstate, hmessage, -⟩ := state_of_ofSource h
  have hstands : Stands source.rows r.plan (.reading 0) r :=
    .reading (standsBefore_of_ofSource hsource h) (by simp [hstate]) (by simp [hmessage])
  have hrun := fun calls => hstands.askAll calls
  have hcount : ∀ calls,
      (askAll calls r).2.recordsRead = (askAll calls r).1.countP Answer.isFetch := by
    intro calls
    obtain ⟨hanswers, hafter⟩ := hrun calls
    rw [hafter.recordsRead, hanswers, Standing.fetched_askAll]
    exact Nat.zero_add _
  refine ⟨hcount, fun earlier call result hopen hresult => ?_, fun calls => ?_,
    fun marked hmarked => ?_⟩
  · obtain ⟨-, hafter⟩ := hrun earlier
    obtain ⟨hanswer, hlast⟩ := hafter.ask call
    rw [hanswer] at hresult
    have hnot := mt hafter.state_eq_failed_iff.2 hopen
    obtain ⟨j, hfetched, hrow⟩ :=
      Standing.getElem?_of_decoded? (fun k hk => hnot ⟨k, hk⟩) hresult
    rw [List.getElem?_map] at hrow
    obtain ⟨row, hrow, hmaterialize⟩ := Option.map_eq_some_iff.1 hrow
    refine ⟨j, row, ?_, hrow, hmaterialize⟩
    rw [← hcount, askAll_append]
    exact hlast.recordsRead.trans hfetched
  · obtain ⟨hanswers, hafter⟩ := hrun calls
    rw [hanswers, hafter.state_eq_failed_iff]
    refine ⟨Standing.exists_error_iff calls 0, ?_⟩
    rw [Standing.askAll_eq_failed_iff, List.length_map]
    simp only [List.getElem?_map, Option.map_eq_some_iff]
    exact exists_congr fun j => and_congr_right fun _ => exists_comm
  · rw [(hrun _).1] at hmarked ⊢
    rw [(hrun _).1]
    exact Standing.askAll_kept hmarked

/-- The two rows are put into the source before a record is asked for. -/
theorem prepared_regularSource : regularSource.Prepared := by
  have hempty : { regularSource with rows := [] }.Prepared := .addMetadata _ _ (.ofWidth 2)
  have hone : { regularSource with
      rows := [⟨[[5, 10, 1, 107, 16, 5], [10, 1, 120]]⟩] }.Prepared :=
    .push ⟨[[5, 10, 1, 107, 16, 5], [10, 1, 120]]⟩ hempty rfl
  exact .push ⟨[[], [255]]⟩ hone rfl

/-- The second of two rows is malformed: a reader that is not asked for its message comes to the
end, and one that is asked gives the error of this row, whether or not it was asked for the message
of the first row before. -/
theorem lazy_regularReader :
    let calls : List Call := [.nextRecord, .nextRecord, .nextRecord]
    let marked : List (Call × Bool) := [(.nextRecord, true), (.currentValue, false),
      (.nextRecord, true), (.currentValue, true), (.next, true)]
    regularSource.Prepared ∧
      ofSource regularSource Sample.regular (.indices [0, 2]) = .ok regularReader ∧
      (askAll calls regularReader).2.state ≠ .failed ∧
      (askAll ((marked.filter Prod.snd).map Prod.fst) regularReader).1 = [.fetched (.ok true),
        .fetched (.ok true), .value (.error (.unknownFields 1 .invalidVarint)), .item none] := by
  intro calls marked
  have hopen : ofSource regularSource Sample.regular (.indices [0, 2]) = .ok regularReader :=
    ofSource_regularSource regularSource.rows
  have hlazy : Lazy regularSource.rows regularReader :=
    lazy_of_ofSource prepared_regularSource hopen
  have hall : (askAll (marked.map Prod.fst) regularReader).1 = [.fetched (.ok true),
      .value (.ok (some
        ⟨[(1, .value (.string "x")), (3, .value (.map [(.string "k", .i32 5)]))]⟩)),
      .fetched (.ok true), .value (.error (.unknownFields 1 .invalidVarint)), .item none] := by
    cbv
  refine ⟨prepared_regularSource, hopen, fun hfailed => ?_, ?_⟩
  · -- No row is asked for in these calls.
    obtain ⟨j, hj, -⟩ := (hlazy.failure calls).2.1 hfailed
    cases hj
  · rw [hlazy.kept marked (by rw [hall]; simp [marked, Answer.error?]), hall]
    rfl

end Reader

end ColumnarRecords
