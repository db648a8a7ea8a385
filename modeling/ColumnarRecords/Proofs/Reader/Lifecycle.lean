import ColumnarRecords.Proofs.Reader.Draining
import ColumnarRecords.Proofs.Source.Exchange

/-!
# The life of a reader

What holds of a reader whatever its source does and in whatever order it is called
(`Reader.lifecycle_of_ofSource`). The states go one way, from planned to iterating and from there to
exhausted or failed; a reader that has ended leaves its source alone; and each error, of the source
or of a message, is given to the caller once, by the call that met it.

The source is watched through `Recorded`, which keeps what it was asked and answered. `Passes` says
what a call to a reader that has not ended can do, in terms of the exchanges that the call has with
the source. A call of the iterator is one call after another, and so are runs of calls, which is why
`Passes` composes and everything else follows from it by induction on the calls.
-/

namespace ColumnarRecords

open ColumnSource

namespace ColumnSource.Exchange

/-- A record was fetched. -/
def isFetch : Exchange → Bool
  | .advance (.ok true) => true
  | _ => false

/-- The error that an exchange leads to: that of the source, or that of the message of the record
that the source gave. -/
def fault? (plan : Plan) : Exchange → Option ReadError
  | .selectColumns _ (.error e) | .advance (.error e) | .current (.error e) => some e
  | .current (.ok (some record)) =>
    match plan.materialize record with
    | .error e => some e
    | .ok _ => none
  | _ => none

end ColumnSource.Exchange

namespace Reader

/-- What a reader may be asked. -/
inductive Call where
  /-- To fetch the next record. -/
  | nextRecord
  /-- The message of the record that it stands at. -/
  | currentValue
  /-- The message of the next record, as an iterator. -/
  | next
deriving DecidableEq, Repr

/-- What a reader answers. -/
inductive Answer where
  /-- Whether a record was fetched. -/
  | fetched (answer : Except ReadError Bool)
  /-- The message of a record. -/
  | value (answer : Except ReadError (Option Message))
  /-- The item of an iterator. -/
  | item (answer : Option (Except ReadError Message))

/-- The error of an answer. -/
def Answer.error? : Answer → Option ReadError
  | .fetched (.error e) | .value (.error e) | .item (some (.error e)) => some e
  | _ => none

namespace Call

/-- The answer of a reader that has failed. -/
def whenFailed : Call → Answer
  | .nextRecord => .fetched (.error .readerFailed)
  | .currentValue => .value (.error .readerFailed)
  | .next => .item none

/-- The answer of a reader whose records are exhausted. -/
def whenExhausted : Call → Answer
  | .nextRecord => .fetched (.ok false)
  | .currentValue => .value (.ok none)
  | .next => .item none

end Call

variable {σ : Type}

/-! ## What a call can do -/

/-- A call that gave some error, or none, took one reader to the other. -/
structure Passes (r : Reader (Recorded σ)) (error? : Option ReadError)
    (r' : Reader (Recorded σ)) : Prop where
  /-- The plan stays. -/
  plan : r'.plan = r.plan
  /-- No call leads back to the state before the first record. -/
  planned : r'.state = .planned → r.state = .planned
  /-- A message is kept only at a record. -/
  cached : (r.message.isSome → r.state = .iterating) → r'.message.isSome → r'.state = .iterating
  /-- The reader fails exactly if there was an error. -/
  failed : r'.state = .failed ↔ error?.isSome
  /-- The call's exchanges with the source account for the records read and for the error. -/
  exchanges : ∃ new, r'.source.log = r.source.log ++ new ∧
    r'.recordsRead = r.recordsRead + new.countP Exchange.isFetch ∧
    new.filterMap (Exchange.fault? r.plan) = error?.toList

/-- A reader passes to itself without an error, unless it has failed. -/
theorem Passes.refl {r : Reader (Recorded σ)} (h : r.state ≠ .failed) : Passes r none r :=
  ⟨rfl, id, id, by simp [h], [], by simp⟩

/-- A call without an error and the call after it together. -/
theorem Passes.trans {r r' r'' : Reader (Recorded σ)} {error? : Option ReadError}
    (h : Passes r none r') (h' : Passes r' error? r'') : Passes r error? r'' := by
  obtain ⟨new, hlog, hread, hfault⟩ := h.exchanges
  obtain ⟨new', hlog', hread', hfault'⟩ := h'.exchanges
  refine ⟨h'.plan.trans h.plan, fun hs => h.planned (h'.planned hs),
    fun hm => h'.cached (h.cached hm), h'.failed, new ++ new', ?_, ?_, ?_⟩
  · rw [hlog', hlog, List.append_assoc]
  · rw [hread', hread, List.countP_append, Nat.add_assoc]
  · rw [List.filterMap_append, hfault, ← h.plan, hfault', Option.toList_none, List.nil_append]

variable [ColumnSource σ]

/-! ## Calls -/

/-- The answer to a call, and the reader after it. -/
def ask (call : Call) (r : Reader σ) : Answer × Reader σ :=
  match call with
  | .nextRecord => (.fetched r.nextRecord.1, r.nextRecord.2)
  | .currentValue => (.value r.currentValue.1, r.currentValue.2)
  | .next => (.item r.next?.1, r.next?.2)

/-- The answers to calls one after another, and the reader after them. -/
def askAll : List Call → Reader σ → List Answer × Reader σ
  | [], r => ([], r)
  | call :: rest, r =>
    let (answer, r) := ask call r
    let (answers, r) := askAll rest r
    (answer :: answers, r)

/-- The errors that calls one after another give to the caller, less what a reader answers that has
failed already. -/
def delivered : List Call → Reader σ → List ReadError
  | [], _ => []
  | call :: rest, r =>
    (if r.state = .failed then [] else (ask call r).1.error?.toList) ++
      delivered rest (ask call r).2

/-- Calls after other calls are asked of the reader that these leave. -/
theorem askAll_append (earlier later : List Call) (r : Reader σ) :
    askAll (earlier ++ later) r =
      ((askAll earlier r).1 ++ (askAll later (askAll earlier r).2).1,
        (askAll later (askAll earlier r).2).2) := by
  induction earlier generalizing r with
  | nil => rfl
  | cons call rest ih => simp only [List.cons_append, askAll, ih]

/-! ## Watching the source -/

/-- The reader, with its source put on record from now on. -/
def watched (r : Reader σ) : Reader (Recorded σ) :=
  ⟨⟨r.source, []⟩, r.plan, r.state, r.message, r.recordsRead⟩

/-- The reader of the source itself. -/
def unwatched (r : Reader (Recorded σ)) : Reader σ :=
  ⟨r.source.source, r.plan, r.state, r.message, r.recordsRead⟩

/-- Fetching a record goes the same way whether the source is watched or not. -/
theorem nextRecord_unwatched (r : Reader (Recorded σ)) :
    r.unwatched.nextRecord = (r.nextRecord.1, r.nextRecord.2.unwatched) := by
  obtain ⟨source, plan, state, message, recordsRead⟩ := r
  cases hadvance : ColumnSource.advance source.source with
  | mk answer inner =>
    unfold nextRecord unwatched
    simp only [hadvance, Recorded.advance_eq hadvance]
    cases state with
    | planned | iterating => rcases answer with _ | _ | _ <;> rfl
    | exhausted | failed => rfl

/-- Building a message goes the same way whether the source is watched or not. -/
theorem build_unwatched (r : Reader (Recorded σ)) :
    r.unwatched.build = (r.build.1, r.build.2.unwatched) := by
  obtain ⟨source, plan, state, message, recordsRead⟩ := r
  cases hcurrent : ColumnSource.current source.source with
  | mk answer inner =>
    unfold build unwatched
    simp only [hcurrent, Recorded.current_eq hcurrent]
    rcases answer with _ | _ | record
    · rfl
    · rfl
    · simp only
      cases plan.materialize record <;> rfl

/-- Asking for a message goes the same way whether the source is watched or not. -/
theorem currentValue_unwatched (r : Reader (Recorded σ)) :
    r.unwatched.currentValue = (r.currentValue.1, r.currentValue.2.unwatched) := by
  have hstate : r.unwatched.state = r.state := rfl
  have hmessage : r.unwatched.message = r.message := rfl
  unfold currentValue
  rw [hstate, hmessage]
  cases r.state with
  | planned | exhausted | failed => rfl
  | iterating =>
    cases r.message with
    | some m => rfl
    | none => exact build_unwatched r

/-- The iterator goes the same way whether the source is watched or not. -/
theorem next?_unwatched (r : Reader (Recorded σ)) :
    r.unwatched.next? = (r.next?.1, r.next?.2.unwatched) := by
  have hstate : r.unwatched.state = r.state := rfl
  unfold next?
  rw [hstate, nextRecord_unwatched]
  by_cases hfailed : r.state = .failed
  · rw [if_pos hfailed, if_pos hfailed]
  · rw [if_neg hfailed, if_neg hfailed]
    rcases r.nextRecord with ⟨_ | _ | _, r'⟩
    · rfl
    · rfl
    · simp only [currentValue_unwatched]
      rcases r'.currentValue with ⟨_ | _ | _, _⟩ <;> rfl

/-- Every call goes the same way whether the source is watched or not. -/
theorem ask_unwatched (call : Call) (r : Reader (Recorded σ)) :
    ask call r.unwatched = ((ask call r).1, (ask call r).2.unwatched) := by
  cases call with
  | nextRecord => simp only [ask, nextRecord_unwatched]
  | currentValue => simp only [ask, currentValue_unwatched]
  | next => simp only [ask, next?_unwatched]

/-- Calls go the same way whether the source is watched or not. -/
theorem askAll_unwatched (calls : List Call) (r : Reader (Recorded σ)) :
    askAll calls r.unwatched = ((askAll calls r).1, (askAll calls r).2.unwatched) := by
  induction calls generalizing r with
  | nil => rfl
  | cons call rest ih => simp only [askAll, ask_unwatched, ih]

/-! ## Readers that have ended -/

/-- A reader that has failed says so, and stays as it is. -/
theorem ask_of_failed {r : Reader σ} (h : r.state = .failed) (call : Call) :
    ask call r = (call.whenFailed, r) := by
  cases call with
  | nextRecord => simp only [ask, nextRecord, h, Call.whenFailed]
  | currentValue => simp only [ask, currentValue, h, Call.whenFailed]
  | next => simp only [ask, next?_of_ended (.inr h), Call.whenFailed]

/-- A reader whose records are exhausted says so, and stays as it is. -/
theorem ask_of_exhausted {r : Reader σ} (h : r.state = .exhausted) (call : Call) :
    ask call r = (call.whenExhausted, r) := by
  cases call with
  | nextRecord => simp only [ask, nextRecord, h, Call.whenExhausted]
  | currentValue => simp only [ask, currentValue, h, Call.whenExhausted]
  | next => simp only [ask, next?_of_ended (.inl h), Call.whenExhausted]

/-- A reader that answers every call in a fixed way and stays as it is answers all so. -/
theorem askAll_of_ask {r : Reader σ} {answer : Call → Answer}
    (h : ∀ call, ask call r = (answer call, r)) (calls : List Call) :
    askAll calls r = (calls.map answer, r) := by
  induction calls with
  | nil => rfl
  | cons call rest ih => simp only [askAll, h call, ih, List.map_cons]

/-! ## Calls to a reader that has not ended -/

/-- The reader after its source was asked to move and answered. -/
def moved (r : Reader σ) (source : σ) : Except ReadError Bool → Reader σ
  | .error _ => { r with source := source }.fail
  | .ok false => { r with source := source, state := .exhausted, message := none }
  | .ok true => { r with
      source := source, state := .iterating, message := none, recordsRead := r.recordsRead + 1 }

/-- A reader that has not ended asks the source to move, and passes on what this answers. -/
theorem nextRecord_of_open {r : Reader σ} (h : r.state = .planned ∨ r.state = .iterating)
    {answer : Except ReadError Bool} {source : σ}
    (hadvance : ColumnSource.advance r.source = (answer, source)) :
    r.nextRecord = (answer, r.moved source answer) := by
  unfold nextRecord
  rw [hadvance]
  rcases h with hs | hs <;> rw [hs] <;> rcases answer with _ | _ | _ <;> rfl

/-- Fetching a record asks the source to move and nothing else. -/
theorem passes_nextRecord {r : Reader (Recorded σ)}
    (h : r.state = .planned ∨ r.state = .iterating) :
    Passes r (Answer.fetched r.nextRecord.1).error? r.nextRecord.2 := by
  cases hadvance : ColumnSource.advance r.source.source with
  | mk answer inner =>
    rw [nextRecord_of_open h (Recorded.advance_eq hadvance)]
    rcases answer with e | _ | _
    · exact ⟨rfl, nofun, nofun, by simp [moved, fail, Answer.error?], [_], rfl, rfl, rfl⟩
    · exact ⟨rfl, nofun, nofun, by simp [moved, Answer.error?], [_], rfl, rfl, rfl⟩
    · exact ⟨rfl, nofun, fun _ _ => rfl, by simp [moved, Answer.error?], [_], rfl, rfl, rfl⟩

/-- Building a message asks the source for its record and nothing else. -/
theorem passes_build {r : Reader (Recorded σ)} (h : r.state = .iterating) :
    Passes r (Answer.value r.build.1).error? r.build.2 := by
  cases hcurrent : ColumnSource.current r.source.source with
  | mk answer inner =>
    unfold build
    rw [Recorded.current_eq hcurrent]
    rcases answer with e | _ | record
    · exact ⟨rfl, nofun, nofun, by simp [fail, Answer.error?], [_], rfl, rfl, rfl⟩
    · exact ⟨rfl, id, id, by simp [h, Answer.error?], [_], rfl, rfl, rfl⟩
    · -- Here alone an answer of the source that is no error leads to one.
      dsimp only
      cases hm : r.plan.materialize record with
      | error e =>
        have hfault : Exchange.fault? r.plan (.current (.ok (some record))) = some e := by
          simp only [Exchange.fault?, hm]
        exact ⟨rfl, nofun, nofun, by simp [fail, Answer.error?], [_], rfl, rfl,
          by simp [hfault, Answer.error?]⟩
      | ok m =>
        have hfault : Exchange.fault? r.plan (.current (.ok (some record))) = none := by
          simp only [Exchange.fault?, hm]
        exact ⟨rfl, id, fun _ _ => h, by simp [h, Answer.error?], [_], rfl, rfl,
          by simp [hfault, Answer.error?]⟩

/-- Asking for a message asks the source for its record, or nothing. -/
theorem passes_currentValue {r : Reader (Recorded σ)}
    (h : r.state = .planned ∨ r.state = .iterating) :
    Passes r (Answer.value r.currentValue.1).error? r.currentValue.2 := by
  rcases h with hs | hs
  · have hvalue : r.currentValue = (.ok none, r) := by simp only [currentValue, hs]
    rw [hvalue]
    exact .refl (by simp [hs])
  · cases hm : r.message with
    | some m =>
      have hvalue : r.currentValue = (.ok (some m), r) := by simp only [currentValue, hs, hm]
      rw [hvalue]
      exact .refl (by simp [hs])
    | none =>
      have hvalue : r.currentValue = r.build := by simp only [currentValue, hs, hm]
      rw [hvalue]
      exact passes_build hs

/-- The iterator fetches a record and asks for its message. -/
theorem passes_next? {r : Reader (Recorded σ)} (h : r.state = .planned ∨ r.state = .iterating) :
    Passes r (Answer.item r.next?.1).error? r.next?.2 := by
  have hopen : r.state ≠ .failed := by rcases h with hs | hs <;> simp [hs]
  have hfetch := passes_nextRecord h
  have hstate : r.nextRecord.1 = .ok true → r.nextRecord.2.state = .iterating := by
    intro hmore
    rw [nextRecord_of_open h rfl] at hmore ⊢
    rw [hmore]
    rfl
  unfold next?
  rw [if_neg hopen]
  rcases hnext : r.nextRecord with ⟨_ | _ | _, r'⟩
  · rw [hnext] at hfetch
    exact hfetch
  · rw [hnext] at hfetch
    exact hfetch
  · -- The iterator's error is that of the second call, as the first one had none.
    rw [hnext] at hfetch hstate
    have hvalue := passes_currentValue (.inr (hstate rfl))
    simp only
    rcases hcurrent : r'.currentValue with ⟨_ | _ | _, r''⟩ <;> rw [hcurrent] at hvalue <;>
      exact hfetch.trans hvalue

/-- A call to a reader that has not ended takes it to the reader after the call. -/
theorem passes_ask {r : Reader (Recorded σ)} (h : r.state = .planned ∨ r.state = .iterating)
    (call : Call) : Passes r (ask call r).1.error? (ask call r).2 := by
  cases call with
  | nextRecord => exact passes_nextRecord h
  | currentValue => exact passes_currentValue h
  | next => exact passes_next? h

/-! ## Runs of calls -/

/-- The errors that the exchanges with the source led to. -/
def faults (r : Reader (Recorded σ)) : List ReadError :=
  r.source.log.filterMap (Exchange.fault? r.plan)

/-- What a reader is, in terms of the exchanges with its source. -/
structure Accounted (r : Reader (Recorded σ)) : Prop where
  /-- A message is kept only at a record. -/
  cached : r.message.isSome → r.state = .iterating
  /-- The records read are those that the source gave. -/
  recordsRead : r.recordsRead = r.source.log.countP Exchange.isFetch
  /-- Nothing went wrong with a reader that has not failed. -/
  faults_eq_nil : r.state ≠ .failed → r.faults = []
  /-- One thing went wrong with a reader that has. -/
  faults_eq_singleton : r.state = .failed → ∃ e, r.faults = [e]

omit [ColumnSource σ] in
/-- A reader that has not ended passes to one that is accounted for, and what went wrong is the
error of the call. -/
theorem Passes.accounted {r r' : Reader (Recorded σ)} {error? : Option ReadError}
    (h : Passes r error? r') (hr : r.Accounted) (hopen : r.state ≠ .failed) :
    r'.Accounted ∧ r'.faults = error?.toList := by
  obtain ⟨new, hlog, hread, hfault⟩ := h.exchanges
  have hfaults : r'.faults = error?.toList := by
    have hbefore : r.source.log.filterMap (Exchange.fault? r.plan) = [] := hr.faults_eq_nil hopen
    rw [faults, hlog, h.plan, List.filterMap_append, hbefore, hfault, List.nil_append]
  refine ⟨⟨h.cached hr.cached, ?_, fun hs => ?_, fun hs => ?_⟩, hfaults⟩
  · rw [hread, hlog, hr.recordsRead, List.countP_append]
  · have hnone : error? = none := by
      rw [← Option.not_isSome_iff_eq_none, ← h.failed]
      exact hs
    rw [hfaults, hnone, Option.toList_none]
  · obtain ⟨e, he⟩ := Option.isSome_iff_exists.1 (h.failed.1 hs)
    exact ⟨e, by rw [hfaults, he, Option.toList_some]⟩

/-- A call leaves a reader that is accounted for so, and gives the caller what went wrong. -/
theorem Accounted.ask {r : Reader (Recorded σ)} (h : r.Accounted) (call : Call) :
    (ask call r).2.Accounted ∧ (ask call r).2.faults =
      r.faults ++ if r.state = .failed then [] else (ask call r).1.error?.toList := by
  cases hs : r.state with
  | failed =>
    rw [ask_of_failed hs, if_pos rfl, List.append_nil]
    exact ⟨h, rfl⟩
  | exhausted =>
    have hanswer : call.whenExhausted.error? = none := by cases call <;> rfl
    rw [ask_of_exhausted hs, if_neg (by simp), hanswer, Option.toList_none, List.append_nil]
    exact ⟨h, rfl⟩
  | planned =>
    have hopen : r.state ≠ .failed := by simp [hs]
    rw [if_neg (by simp), h.faults_eq_nil hopen, List.nil_append]
    exact (passes_ask (.inl hs) call).accounted h hopen
  | iterating =>
    have hopen : r.state ≠ .failed := by simp [hs]
    rw [if_neg (by simp), h.faults_eq_nil hopen, List.nil_append]
    exact (passes_ask (.inr hs) call).accounted h hopen

/-- Calls leave a reader that is accounted for so, and give the caller what went wrong. -/
theorem Accounted.askAll {r : Reader (Recorded σ)} (h : r.Accounted) (calls : List Call) :
    (askAll calls r).2.Accounted ∧ (askAll calls r).2.faults = r.faults ++ delivered calls r := by
  -- The errors so far are those before the call, then its own, then those of the calls after it.
  induction calls generalizing r with
  | nil => exact ⟨h, (List.append_nil _).symm⟩
  | cons call rest ih =>
    obtain ⟨hcall, hfaults⟩ := h.ask call
    obtain ⟨hrest, hothers⟩ := ih hcall
    refine ⟨hrest, ?_⟩
    rw [delivered, ← List.append_assoc, ← hfaults]
    exact hothers

/-- A call does not lead back to the state before the first record. -/
theorem state_ask_ne_planned {r : Reader (Recorded σ)} (h : r.state ≠ .planned) (call : Call) :
    (ask call r).2.state ≠ .planned := by
  cases hs : r.state with
  | planned => exact absurd hs h
  | failed =>
    rw [ask_of_failed hs]
    exact h
  | exhausted =>
    rw [ask_of_exhausted hs]
    exact h
  | iterating => exact fun hafter => h ((passes_ask (.inr hs) call).planned hafter)

/-- Calls do not lead back to the state before the first record. -/
theorem state_askAll_ne_planned {r : Reader (Recorded σ)} (h : r.state ≠ .planned)
    (calls : List Call) : (askAll calls r).2.state ≠ .planned := by
  induction calls generalizing r with
  | nil => exact h
  | cons call rest ih => exact ih (state_ask_ne_planned h call)

/-- Fetching a record counts one at most. -/
theorem recordsRead_nextRecord_le (r : Reader σ) :
    r.nextRecord.2.recordsRead ≤ r.recordsRead + 1 := by
  unfold nextRecord
  split
  · exact Nat.le_succ _
  · exact Nat.le_succ _
  · split
    · exact Nat.le_succ _
    · exact Nat.le_succ _
    · exact Nat.le_refl _
  · split
    · exact Nat.le_succ _
    · exact Nat.le_succ _
    · exact Nat.le_refl _

/-- Asking for a message counts nothing. -/
theorem recordsRead_currentValue (r : Reader σ) : r.currentValue.2.recordsRead = r.recordsRead := by
  have hbuild : r.build.2.recordsRead = r.recordsRead := by
    unfold build
    split
    · rfl
    · rfl
    · split <;> rfl
  unfold currentValue
  split
  · rfl
  · rfl
  · rfl
  · split
    · rfl
    · exact hbuild

/-- A call counts one record at most. -/
theorem recordsRead_ask_le (call : Call) (r : Reader σ) :
    (ask call r).2.recordsRead ≤ r.recordsRead + 1 := by
  have hfetch := recordsRead_nextRecord_le r
  cases call with
  | nextRecord => exact hfetch
  | currentValue => exact (recordsRead_currentValue r).trans_le (Nat.le_succ _)
  | next =>
    show r.next?.2.recordsRead ≤ r.recordsRead + 1
    unfold next?
    split
    · exact Nat.le_succ _
    · rcases hnext : r.nextRecord with ⟨_ | _ | _, r'⟩ <;> rw [hnext] at hfetch
      · exact hfetch
      · exact hfetch
      · have hvalue := recordsRead_currentValue r'
        simp only
        rcases hcurrent : r'.currentValue with ⟨_ | _ | _, r''⟩ <;> rw [hcurrent] at hvalue <;>
          exact hvalue.trans_le hfetch

/-- Calls count as many records as they are, at most. -/
theorem recordsRead_askAll_le (calls : List Call) (r : Reader σ) :
    (askAll calls r).2.recordsRead ≤ r.recordsRead + calls.length := by
  induction calls generalizing r with
  | nil => exact Nat.le_refl _
  | cons call rest ih =>
    have hcall := recordsRead_ask_le call r
    have hrest := ih (ask call r).2
    rw [List.length_cons]
    exact hrest.trans (by omega)

/-! ## The life of a reader -/

/-- The reader after calls, with what its source was asked in them. -/
def after (calls : List Call) (r : Reader σ) : Reader (Recorded σ) := (askAll calls r.watched).2

/-- What holds of a reader whatever it is asked from now on. -/
structure Lifecycle (r : Reader σ) : Prop where
  /-- The reader does the same whether its source is watched or not. -/
  watched : ∀ calls, askAll calls r = ((askAll calls r.watched).1, (r.after calls).unwatched)
  /-- The reader never goes back to before the first record. -/
  onward : ∀ earlier later, (r.after earlier).state ≠ .planned →
    (r.after (earlier ++ later)).state ≠ .planned
  /-- A reader whose records are exhausted answers that there is nothing more, and stays as it is;
  so does its source, which is asked nothing. -/
  exhausted : ∀ earlier later, (r.after earlier).state = .exhausted →
    askAll later (r.after earlier) = (later.map Call.whenExhausted, r.after earlier)
  /-- A reader that has failed answers that it has, its iterator that there is nothing more, and
  stays as it is; so does its source, which is asked nothing. -/
  failed : ∀ earlier later, (r.after earlier).state = .failed →
    askAll later (r.after earlier) = (later.map Call.whenFailed, r.after earlier)
  /-- A message is kept only at a record. -/
  cached : ∀ calls, (r.after calls).message.isSome → (r.after calls).state = .iterating
  /-- The records read are those that the source gave. -/
  recordsRead : ∀ calls,
    (r.after calls).recordsRead = (r.after calls).source.log.countP Exchange.isFetch
  /-- They are no more than the calls. -/
  recordsRead_le : ∀ calls, (r.after calls).recordsRead ≤ calls.length
  /-- The error that a call meets is the one that it gives to the caller. -/
  returned : ∀ earlier call, (r.after earlier).state ≠ .failed →
    (r.after (earlier ++ [call])).faults =
      (r.after earlier).faults ++ (ask call (r.after earlier)).1.error?.toList
  /-- All errors met are given to the caller, each once. -/
  delivered : ∀ calls, (r.after calls).faults = delivered calls r.watched
  /-- The reader has failed exactly if there was an error, and then there was one. -/
  fault : ∀ calls, if (r.after calls).state = .failed then ∃ e, (r.after calls).faults = [e]
    else (r.after calls).faults = []

/-- A reader that was just opened has done nothing yet. -/
theorem state_of_ofSource {source : σ} {s : Schema} {selection : Selection} {r : Reader σ}
    (h : ofSource source s selection = .ok r) :
    r.state = .planned ∧ r.message = none ∧ r.recordsRead = 0 := by
  obtain ⟨numbers, -, hopen⟩ := openNumbers_of_ofSource h
  obtain ⟨stored, -, -, -, hr⟩ := openNumbers_eq_ok hopen
  rw [hr]
  exact ⟨rfl, rfl, rfl⟩

/-- Whatever its source does and whatever it is asked, a reader that was opened goes one way through
its states, leaves the source alone once it has ended, counts the records that the source gave,
keeps a message only at a record, and gives each error to the caller once, by the call that met
it. -/
theorem lifecycle_of_ofSource {source : σ} {s : Schema} {selection : Selection} {r : Reader σ}
    (h : ofSource source s selection = .ok r) : r.Lifecycle := by
  obtain ⟨hstate, hmessage, hread⟩ := state_of_ofSource h
  -- Nothing was exchanged yet, so there is nothing to account for.
  have hfaults : r.watched.faults = [] := rfl
  have hstart : r.watched.Accounted :=
    ⟨fun hm => absurd hm (by simp [watched, hmessage]), hread, fun _ => rfl,
      fun hs => absurd hs (by simp [watched, hstate])⟩
  have happend : ∀ earlier later,
      r.after (earlier ++ later) = (askAll later (r.after earlier)).2 := by
    intro earlier later
    simp only [after, askAll_append]
  refine ⟨?_, ?_, ?_, ?_, ?_, ?_, ?_, ?_, ?_, ?_⟩
  · exact fun calls => askAll_unwatched calls r.watched
  · intro earlier later hs
    rw [happend]
    exact state_askAll_ne_planned hs later
  · exact fun earlier later hs => askAll_of_ask (ask_of_exhausted hs) later
  · exact fun earlier later hs => askAll_of_ask (ask_of_failed hs) later
  · exact fun calls => (hstart.askAll calls).1.cached
  · exact fun calls => (hstart.askAll calls).1.recordsRead
  · intro calls
    have hle := recordsRead_askAll_le calls r.watched
    have hzero : r.watched.recordsRead = 0 := hread
    rw [hzero, Nat.zero_add] at hle
    exact hle
  · intro earlier call hs
    have hopen : (askAll earlier r.watched).2.state ≠ .failed := hs
    have hcall := ((hstart.askAll earlier).1.ask call).2
    rw [if_neg hopen] at hcall
    rw [happend]
    exact hcall
  · intro calls
    have hall := (hstart.askAll calls).2
    rw [hfaults, List.nil_append] at hall
    exact hall
  · intro calls
    have hafter := (hstart.askAll calls).1
    split
    · exact hafter.faults_eq_singleton ‹_›
    · exact hafter.faults_eq_nil ‹_›

/-- A reader of two records of which the second is malformed, asked in every way: the error of the
second goes to the caller once. -/
theorem lifecycle_regularReader :
    let calls : List Call := [.currentValue, .next, .currentValue, .nextRecord, .currentValue,
      .nextRecord, .currentValue, .next]
    ofSource regularSource Sample.regular (.indices [0, 2]) = .ok regularReader ∧
      (askAll calls regularReader).1 = [.value (.ok none),
        .item (some (.ok
          ⟨[(1, .value (.string "x")), (3, .value (.map [(.string "k", .i32 5)]))]⟩)),
        .value (.ok (some
          ⟨[(1, .value (.string "x")), (3, .value (.map [(.string "k", .i32 5)]))]⟩)),
        .fetched (.ok true), .value (.error (.unknownFields 1 .invalidVarint)),
        .fetched (.error .readerFailed), .value (.error .readerFailed), .item none] ∧
      (regularReader.after calls).faults = [.unknownFields 1 .invalidVarint] ∧
      (regularReader.after calls).recordsRead = 2 := by
  intro calls
  have hopen : ofSource regularSource Sample.regular (.indices [0, 2]) = .ok regularReader :=
    ofSource_regularSource regularSource.rows
  have hlife := lifecycle_of_ofSource hopen
  refine ⟨hopen, ?_, ?_, ?_⟩
  · rw [hlife.watched calls]
    cbv
  · rw [hlife.delivered calls]
    cbv
  · rw [hlife.recordsRead calls]
    cbv

end Reader

end ColumnarRecords
