import ColumnarRecords.Proofs.Reader.Laziness

/-!
# The message of a record stays

A source may give another record each time it is asked, and a reader still gives one message for
each record that it fetches (`Reader.stable_of_ofSource`). Once it has given the message it gives
the same one whenever it is asked again before the next record is fetched, and leaves its source
alone; and a message that it gives was built from what the source gave after it had last moved,
never from what it gave before.

`Keeps` says what a reader that stands at a record keeps, by the exchanges with its source. A record
that has just been fetched has no message yet, and it stays so while the source has no record; then
the message is built, and there are no more exchanges until the source moves. Every call leaves a
reader that keeps this so (`Current.ask`).
-/

namespace ColumnarRecords

open ColumnSource

namespace Reader

/-- After these exchanges a reader that stands at a record keeps this message of it. -/
inductive Keeps (plan : Plan) : List Exchange → Option Message → Prop where
  /-- The source has just moved to the record. -/
  | moved (before : List Exchange) : Keeps plan (before ++ [.advance (.ok true)]) none
  /-- The source had no record. -/
  | blank {log : List Exchange} (h : Keeps plan log none) :
    Keeps plan (log ++ [.current (.ok none)]) none
  /-- The message was built from the record that the source gave. -/
  | built {log : List Exchange} {record : Record} {m : Message} (h : Keeps plan log none)
    (hm : plan.materialize record = .ok m) :
    Keeps plan (log ++ [.current (.ok (some record))]) (some m)

/-- The exchanges end with those since the source last moved, in which it had no record until it gave
one that has the message. -/
def BuiltSinceMove (plan : Plan) (log : List Exchange) (m : Message) : Prop :=
  ∃ before blanks record,
    log = before ++ .advance (.ok true) :: (blanks ++ [.current (.ok (some record))]) ∧
      (∀ x ∈ blanks, x = .current (.ok none)) ∧ plan.materialize record = .ok m

/-- Without a message the source had no record since it last moved. -/
theorem Keeps.exists_move {plan : Plan} {log : List Exchange} (h : Keeps plan log none) :
    ∃ before blanks, log = before ++ .advance (.ok true) :: blanks ∧
      ∀ x ∈ blanks, x = .current (.ok none) := by
  generalize hnone : (none : Option Message) = message at h
  induction h with
  | moved before => exact ⟨before, [], rfl, by simp⟩
  | blank h ih =>
    obtain ⟨before, blanks, rfl, hblanks⟩ := ih rfl
    refine ⟨before, blanks ++ [.current (.ok none)], by simp, fun x hx => ?_⟩
    obtain hx | hx := List.mem_append.1 hx
    · exact hblanks x hx
    · exact List.mem_singleton.1 hx
  | built h hm ih => cases hnone

/-- A message was built since the source last moved. -/
theorem Keeps.builtSinceMove {plan : Plan} {log : List Exchange} {m : Message}
    (h : Keeps plan log (some m)) : BuiltSinceMove plan log m := by
  cases h with
  | built h hm =>
    obtain ⟨before, blanks, rfl, hblanks⟩ := h.exists_move
    exact ⟨before, blanks, _, by simp, hblanks, hm⟩

variable {σ : Type} [ColumnSource σ]

/-! ## Calls that give a message -/

/-- A reader gives the message that it keeps, or builds it from the record that the source gives. -/
theorem currentValue_eq_some {r r' : Reader σ} {m : Message}
    (h : r.currentValue = (.ok (some m), r')) :
    r.state = .iterating ∧ r'.state = .iterating ∧ r'.message = some m ∧
      (r.message = none → ∃ record source,
        ColumnSource.current r.source = (.ok (some record), source) ∧
          r.plan.materialize record = .ok m ∧ r'.source = source) := by
  unfold currentValue at h
  split at h
  · cases h
  · cases h
  · cases h
  · rename_i hstate
    split at h
    · rename_i kept hkept
      obtain ⟨hm, rfl⟩ := Prod.mk.inj h
      obtain rfl := Option.some.inj (Except.ok.inj hm)
      exact ⟨hstate, hstate, hkept, fun hnone => by cases hkept.symm.trans hnone⟩
    · unfold build at h
      split at h
      · cases h
      · cases h
      · rename_i record source hcurrent
        split at h
        · cases h
        · rename_i built hbuilt
          obtain ⟨hm, rfl⟩ := Prod.mk.inj h
          obtain rfl := Option.some.inj (Except.ok.inj hm)
          exact ⟨hstate, hstate, rfl, fun _ => ⟨record, source, hcurrent, hbuilt, rfl⟩⟩

/-- The iterator gives the message of a record that it has just fetched. -/
theorem next?_eq_some {r r' : Reader σ} {m : Message} (h : r.next? = (some (.ok m), r')) :
    ∃ fetched, r.nextRecord = (.ok true, fetched) ∧ fetched.currentValue = (.ok (some m), r') := by
  unfold next? at h
  split at h
  · cases h
  · split at h
    · cases h
    · cases h
    · rename_i fetched hfetched
      split at h
      · cases h
      · cases h
      · rename_i last hvalue
        obtain ⟨hm, rfl⟩ := Prod.mk.inj h
        obtain rfl := Except.ok.inj (Option.some.inj hm)
        exact ⟨fetched, hfetched, hvalue⟩

/-- A reader that has given a message stands at its record and keeps it. -/
theorem message_of_decoded? {r : Reader σ} {call : Call} {m : Message}
    (h : (ask call r).1.decoded? = some (.ok m)) :
    (ask call r).2.state = .iterating ∧ (ask call r).2.message = some m := by
  cases call with
  | nextRecord => cases h
  | currentValue =>
    have hvalue : r.currentValue = (.ok (some m), r.currentValue.2) := by
      rcases hcurrent : r.currentValue with ⟨_ | _ | _, r'⟩ <;>
        simp_all [ask, Answer.decoded?]
    obtain ⟨-, hstate, hmessage, -⟩ := currentValue_eq_some hvalue
    exact ⟨hstate, hmessage⟩
  | next =>
    have hitem : r.next? = (some (.ok m), r.next?.2) := by
      rcases hnext : r.next? with ⟨_ | _, r'⟩ <;> simp_all [ask, Answer.decoded?]
    obtain ⟨fetched, -, hvalue⟩ := next?_eq_some hitem
    obtain ⟨-, hstate, hmessage, -⟩ := currentValue_eq_some hvalue
    exact ⟨hstate, hmessage⟩

/-- A message that is kept is given again and again, and nothing else happens. -/
theorem askAll_replicate_currentValue {r : Reader σ} {m : Message} (hstate : r.state = .iterating)
    (hmessage : r.message = some m) (count : Nat) :
    askAll (List.replicate count .currentValue) r =
      (List.replicate count (.value (.ok (some m))), r) := by
  have hask : ask .currentValue r = (.value (.ok (some m)), r) := by
    simp only [ask, currentValue, hstate, hmessage]
  induction count with
  | zero => rfl
  | succ count ih => simp only [List.replicate_succ, askAll, hask, ih]

/-! ## What a reader keeps -/

/-- The reader follows the plan, and if it stands at a record it keeps what the exchanges with its
source say. -/
structure Current (plan : Plan) (r : Reader (Recorded σ)) : Prop where
  /-- The plan is that of the reader. -/
  plan_eq : r.plan = plan
  /-- The message is that of the record at which the source stands. -/
  keeps : r.state = .iterating → Keeps plan r.source.log r.message

variable {plan : Plan} {r : Reader (Recorded σ)}

/-- Fetching a record leaves no message of another. -/
theorem Current.nextRecord (h : Current plan r) (hopen : r.state = .planned ∨ r.state = .iterating) :
    Current plan r.nextRecord.2 := by
  rcases hadvance : ColumnSource.advance r.source.source with ⟨answer, inner⟩
  rw [nextRecord_of_open hopen (Recorded.advance_eq hadvance)]
  rcases answer with e | _ | _
  · exact ⟨h.plan_eq, nofun⟩
  · exact ⟨h.plan_eq, nofun⟩
  · exact ⟨h.plan_eq, fun _ => .moved r.source.log⟩

/-- Building a message leaves that of the record which the source gave. -/
theorem Current.build (h : Current plan r) (hstate : r.state = .iterating)
    (hnone : r.message = none) : Current plan r.build.2 := by
  have hkeeps := h.keeps hstate
  rw [hnone] at hkeeps
  rcases hcurrent : ColumnSource.current r.source.source with ⟨answer, inner⟩
  unfold Reader.build
  rw [Recorded.current_eq hcurrent]
  rcases answer with e | _ | record
  · exact ⟨h.plan_eq, nofun⟩
  · exact ⟨h.plan_eq, fun _ => hnone ▸ hkeeps.blank⟩
  · dsimp only
    cases hm : r.plan.materialize record with
    | error e => exact ⟨h.plan_eq, nofun⟩
    | ok m => exact ⟨h.plan_eq, fun _ => hkeeps.built (h.plan_eq ▸ hm)⟩

/-- Asking for the message leaves that of the same record. -/
theorem Current.currentValue (h : Current plan r) : Current plan r.currentValue.2 := by
  unfold Reader.currentValue
  split
  · exact h
  · exact h
  · exact h
  · split
    · exact h
    · exact h.build ‹_› ‹_›

/-- The iterator leaves the message of the record that it fetched. -/
theorem Current.next? (h : Current plan r) (hopen : r.state = .planned ∨ r.state = .iterating) :
    Current plan r.next?.2 := by
  have hfetch := h.nextRecord hopen
  have hfailed : r.state ≠ .failed := by rcases hopen with hs | hs <;> simp [hs]
  unfold Reader.next?
  rw [if_neg hfailed]
  rcases hnext : r.nextRecord with ⟨_ | _ | _, fetched⟩ <;> rw [hnext] at hfetch
  · exact hfetch
  · exact hfetch
  · have hvalue := hfetch.currentValue
    simp only
    rcases hcurrent : fetched.currentValue with ⟨_ | _ | _, last⟩ <;> rw [hcurrent] at hvalue <;>
      exact hvalue

/-- A call leaves a reader that keeps the message of its record so. -/
theorem Current.ask (h : Current plan r) (call : Call) : Current plan (ask call r).2 := by
  have hopen : r.state = .planned ∨ r.state = .iterating → Current plan (Reader.ask call r).2 :=
    fun hopen => by
      cases call with
      | nextRecord => exact h.nextRecord hopen
      | currentValue => exact h.currentValue
      | next => exact h.next? hopen
  cases hs : r.state with
  | planned => exact hopen (.inl hs)
  | iterating => exact hopen (.inr hs)
  | exhausted =>
    rw [ask_of_exhausted hs]
    exact h
  | failed =>
    rw [ask_of_failed hs]
    exact h

/-- Calls leave a reader that keeps the message of its record so. -/
theorem Current.askAll (h : Current plan r) (calls : List Call) :
    Current plan (askAll calls r).2 := by
  induction calls generalizing r with
  | nil => exact h
  | cons call rest ih => exact ih (h.ask call)

/-- The message that a call gives was built since the source last moved. -/
theorem Current.builtSinceMove (h : Current plan r) {call : Call} {m : Message}
    (hm : (Reader.ask call r).1.decoded? = some (.ok m)) :
    BuiltSinceMove plan (Reader.ask call r).2.source.log m := by
  obtain ⟨hstate, hmessage⟩ := message_of_decoded? hm
  have hkeeps := (h.ask call).keeps hstate
  rw [hmessage] at hkeeps
  exact hkeeps.builtSinceMove

/-- A reader that has not ended puts on record that its source has moved, and keeps no message. -/
theorem nextRecord_eq_true {r' : Reader (Recorded σ)} (h : r.nextRecord = (.ok true, r')) :
    r'.source.log = r.source.log ++ [.advance (.ok true)] ∧ r'.message = none ∧
      r'.plan = r.plan := by
  have hopen : r.state = .planned ∨ r.state = .iterating := by
    cases hs : r.state with
    | planned => exact .inl rfl
    | iterating => exact .inr rfl
    | exhausted | failed =>
      simp only [nextRecord, hs] at h
      cases h
  rcases hadvance : ColumnSource.advance r.source.source with ⟨answer, inner⟩
  rw [nextRecord_of_open hopen (Recorded.advance_eq hadvance)] at h
  obtain ⟨rfl, rfl⟩ := Prod.mk.inj h
  exact ⟨rfl, rfl, rfl⟩

/-- The first message after a fetch is built from the record that the source then gives. -/
theorem log_of_first_value {fetched last : Reader (Recorded σ)} {m : Message}
    (hfetch : r.nextRecord = (.ok true, fetched))
    (hvalue : fetched.currentValue = (.ok (some m), last)) :
    ∃ record, last.source.log =
        r.source.log ++ [.advance (.ok true), .current (.ok (some record))] ∧
      r.plan.materialize record = .ok m := by
  obtain ⟨hlog, hnone, hplan⟩ := nextRecord_eq_true hfetch
  obtain ⟨-, -, -, hbuilt⟩ := currentValue_eq_some hvalue
  obtain ⟨record, source, hcurrent, hm, hlast⟩ := hbuilt hnone
  rcases hinner : ColumnSource.current fetched.source.source with ⟨answer, inner⟩
  rw [Recorded.current_eq hinner] at hcurrent
  obtain ⟨rfl, rfl⟩ := Prod.mk.inj hcurrent
  refine ⟨record, ?_, hplan ▸ hm⟩
  rw [hlast, hlog, List.append_assoc]
  rfl

/-! ## Runs -/

/-- The message of a record stays the same whatever the source does. -/
structure Stable (r : Reader σ) : Prop where
  /-- The reader does the same whether its source is watched or not. -/
  watched : ∀ calls : List Call,
    askAll calls r = ((askAll calls r.watched).1, (r.after calls).unwatched)
  /-- After a call that gave a message, questions for the message are all answered with it. The
  reader stays as it is and so does its source, which is asked nothing. -/
  repeated : ∀ (earlier : List Call) (call : Call) (m : Message),
    (ask call (r.after earlier)).1.decoded? = some (.ok m) →
    ∀ count, askAll (List.replicate count .currentValue) (r.after (earlier ++ [call])) =
      (List.replicate count (.value (.ok (some m))), r.after (earlier ++ [call]))
  /-- The first message after a fetch is built from what the source is then asked for. -/
  first : ∀ (earlier : List Call) (m : Message),
    (ask .nextRecord (r.after earlier)).1 = .fetched (.ok true) →
    (ask .currentValue (r.after (earlier ++ [.nextRecord]))).1 = .value (.ok (some m)) →
    ∃ record, (r.after (earlier ++ [.nextRecord, .currentValue])).source.log =
        (r.after earlier).source.log ++ [.advance (.ok true), .current (.ok (some record))] ∧
      r.plan.materialize record = .ok m
  /-- Every message that a call gives was built since the source last moved. -/
  built : ∀ (earlier : List Call) (call : Call) (m : Message),
    (ask call (r.after earlier)).1.decoded? = some (.ok m) →
    BuiltSinceMove r.plan (r.after (earlier ++ [call])).source.log m

/-- The reader after one call more. -/
theorem after_concat (r : Reader σ) (earlier : List Call) (call : Call) :
    r.after (earlier ++ [call]) = (ask call (r.after earlier)).2 := by
  simp only [after, askAll_append]
  rfl

/-- Whatever its source does and whatever it is asked, a reader that was opened gives the message of
a record again and again as it gave it first, without asking the source, and gives no message that
was built before the source last moved. -/
theorem stable_of_ofSource {source : σ} {s : Schema} {selection : Selection} {r : Reader σ}
    (h : ofSource source s selection = .ok r) : r.Stable := by
  have hstart : Current r.plan r.watched :=
    ⟨rfl, fun hs => by cases (state_of_ofSource h).1.symm.trans hs⟩
  refine ⟨fun calls => askAll_unwatched calls r.watched, fun earlier call m hm count => ?_,
    fun earlier m hfetch hvalue => ?_, fun earlier call m hm => ?_⟩
  · rw [after_concat]
    obtain ⟨hstate, hmessage⟩ := message_of_decoded? hm
    exact askAll_replicate_currentValue hstate hmessage count
  · have hfetched : (r.after earlier).nextRecord =
        (.ok true, r.after (earlier ++ [.nextRecord])) := by
      rw [after_concat]
      exact Prod.ext (Answer.fetched.inj hfetch) rfl
    have hlast : (r.after (earlier ++ [.nextRecord])).currentValue =
        (.ok (some m), r.after (earlier ++ [.nextRecord, .currentValue])) := by
      have hafter : r.after (earlier ++ [.nextRecord, .currentValue]) =
          (ask .currentValue (r.after (earlier ++ [.nextRecord]))).2 := by
        rw [List.append_cons, after_concat]
      rw [hafter]
      exact Prod.ext (Answer.value.inj hvalue) rfl
    have hplan : (r.after earlier).plan = r.plan := (hstart.askAll earlier).plan_eq
    rw [← hplan]
    exact log_of_first_value hfetched hlast
  · rw [after_concat]
    exact (hstart.askAll earlier).builtSinceMove hm

end Reader

/-- Rows in memory that gives another record whenever it is asked for the current one. -/
structure Restless where
  /-- The rows. -/
  source : MemorySource
  /-- What it gives, one after another. -/
  given : List Record
deriving DecidableEq, Repr

instance : ColumnSource Restless where
  columnCount s := s.source.columnCount
  metadata? s := s.source.metadata?
  selectColumns columns s :=
    ((s.source.selectColumns columns).1, { s with source := (s.source.selectColumns columns).2 })
  advance s := (s.source.advance.1, { s with source := s.source.advance.2 })
  current s := (.ok s.given.head?, { s with given := s.given.tail })

namespace Reader

/-- A source that gives a record with a text and a map first, and then one with the map only. -/
def restlessSource : Restless :=
  ⟨regularSource, [⟨[[5, 10, 1, 107, 16, 5], [10, 1, 120]]⟩, ⟨[[5, 10, 1, 107, 16, 5], []]⟩]⟩

/-- A reader of the text and the map of what the source gives. -/
def restlessReader : Reader Restless :=
  { regularReader with
    source := { restlessSource with source := { regularSource with selected := some [0, 1] } } }

/-- The text and the map are given again and again, although the source would give the map only. The
source is asked for them once. -/
theorem stable_restlessReader :
    let m : Message := ⟨[(1, .value (.string "x")), (3, .value (.map [(.string "k", .i32 5)]))]⟩
    let r := restlessReader.after ([.nextRecord] ++ [.currentValue])
    ofSource restlessSource Sample.regular (.indices [0, 2]) = .ok restlessReader ∧
      (ask .currentValue (restlessReader.after [.nextRecord])).1.decoded? = some (.ok m) ∧
      askAll (List.replicate 2 .currentValue) r =
        (List.replicate 2 (.value (.ok (some m))), r) ∧
      BuiltSinceMove restlessReader.plan r.source.log m := by
  have hopen : ofSource restlessSource Sample.regular (.indices [0, 2]) = .ok restlessReader := by
    have hstored : StoredFields.ofSource restlessSource = .ok ⟨[3, -1]⟩ :=
      stored_regularSource restlessSource.source.rows
    unfold ofSource openNumbers
    rw [hstored]
    rfl
  have hfirst : (ask .currentValue (restlessReader.after [.nextRecord])).1.decoded? = some (.ok
      ⟨[(1, .value (.string "x")), (3, .value (.map [(.string "k", .i32 5)]))]⟩) := by
    cbv
  have hstable := stable_of_ofSource hopen
  exact ⟨hopen, hfirst, hstable.repeated [.nextRecord] .currentValue _ hfirst 2,
    hstable.built [.nextRecord] .currentValue _ hfirst⟩

end Reader

end ColumnarRecords
