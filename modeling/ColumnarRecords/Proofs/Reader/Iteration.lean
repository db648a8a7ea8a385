import ColumnarRecords.Proofs.Reader.Lifecycle

/-!
# What the iterator of a reader yields

What a reader answers that is asked as an iterator only, whatever its source does
(`Reader.iteration_of_ofSource`). Each record that is fetched is matched by one answer, which is an
item if the source then has a record or an error. If it has none the answer is that there is nothing
more, although the source has not come to an end, and the iterator may go on with the next record.
`Reader.Faithful` says that no record is dropped so. A reader is faithful whose source has a record
wherever it has moved to one, and need not be otherwise (`Reader.not_faithful_withheldReader`).

`Turn` says what one call of the iterator does, by the exchanges that it has with the source. Runs
are by induction on the calls: each of them is a turn until the reader has ended.
-/

namespace ColumnarRecords

open ColumnSource

namespace ColumnSource.Exchange

/-- The source did not move, for an error. -/
def isRefusal : Exchange → Bool
  | .advance (.error _) => true
  | _ => false

/-- The source came to its end. -/
def isEnd : Exchange → Bool
  | .advance (.ok false) => true
  | _ => false

/-- The source had no record. -/
def isBlank : Exchange → Bool
  | .current (.ok none) => true
  | _ => false

/-- This is one exchange only. -/
theorem eq_of_isBlank {x : Exchange} (h : x.isBlank = true) : x = .current (.ok none) := by
  unfold isBlank at h
  split at h
  · rfl
  · cases h

/-- The answer of the iterator that an exchange leads to. -/
def item? (plan : Plan) : Exchange → Option (Option (Except ReadError Message))
  | .advance (.error e) | .current (.error e) => some (some (.error e))
  | .advance (.ok false) | .current (.ok none) => some none
  | .current (.ok (some record)) => some (some (plan.materialize record))
  | _ => none

end ColumnSource.Exchange

namespace Reader

variable {σ : Type}

/-! ## Calls of the iterator -/

/-- The exchanges of a call of the iterator with the source, what it answers, and how far the reader
is after it. -/
inductive Turn (plan : Plan) :
    List Exchange → Option (Except ReadError Message) → ReaderState → Prop where
  /-- The source does not move. -/
  | refused (e : ReadError) : Turn plan [.advance (.error e)] (some (.error e)) .failed
  /-- The source comes to its end. -/
  | ended : Turn plan [.advance (.ok false)] none .exhausted
  /-- The source has an error in place of the record. -/
  | unread (e : ReadError) :
    Turn plan [.advance (.ok true), .current (.error e)] (some (.error e)) .failed
  /-- The source has no record. -/
  | blank : Turn plan [.advance (.ok true), .current (.ok none)] none .iterating
  /-- The record has a message. -/
  | message {record : Record} {m : Message} (h : plan.materialize record = .ok m) :
    Turn plan [.advance (.ok true), .current (.ok (some record))] (some (.ok m)) .iterating
  /-- The record is malformed. -/
  | malformed {record : Record} {e : ReadError} (h : plan.materialize record = .error e) :
    Turn plan [.advance (.ok true), .current (.ok (some record))] (some (.error e)) .failed

/-- A turn answers once, and does so for its last exchange. -/
theorem Turn.filterMap_item? {plan : Plan} {new : List Exchange}
    {answer : Option (Except ReadError Message)} {state : ReaderState}
    (h : Turn plan new answer state) : new.filterMap (Exchange.item? plan) = [answer] := by
  cases h with
  | refused e => rfl
  | ended => rfl
  | unread e => rfl
  | blank => rfl
  | message hm | malformed hm => exact congrArg (fun answer => [some answer]) hm

/-- A turn that fetches a record yields an item or meets a blank, and one that does not yields an
item exactly if the source refused to move. -/
theorem Turn.count {plan : Plan} {new : List Exchange} {answer : Option (Except ReadError Message)}
    {state : ReaderState} (h : Turn plan new answer state) :
    [answer].countP Option.isSome + new.countP Exchange.isBlank =
      new.countP Exchange.isFetch + new.countP Exchange.isRefusal := by
  cases h <;> rfl

variable [ColumnSource σ]

/-- A call of the iterator of a reader that has not ended is a turn. -/
theorem turn_next? {r : Reader (Recorded σ)} (h : r.state = .planned ∨ r.state = .iterating) :
    ∃ new, r.next?.2.source.log = r.source.log ++ new ∧ r.next?.2.plan = r.plan ∧
      Turn r.plan new r.next?.1 r.next?.2.state := by
  have hopen : ¬r.state = .failed := by rcases h with hs | hs <;> simp [hs]
  rcases hadvance : ColumnSource.advance r.source.source with ⟨answer, inner⟩
  have hnext := nextRecord_of_open h (Recorded.advance_eq hadvance)
  unfold next?
  rw [if_neg hopen, hnext]
  rcases answer with e | _ | _
  · exact ⟨_, rfl, rfl, .refused e⟩
  · exact ⟨_, rfl, rfl, .ended⟩
  · -- The record has just been fetched, so no message of it is kept.
    rcases hcurrent : ColumnSource.current inner with ⟨record?, last⟩
    have hrecord := Recorded.current_eq
      (s := ⟨inner, r.source.log ++ [.advance (.ok true)]⟩) hcurrent
    simp only [moved, currentValue, build]
    rw [hrecord]
    rcases record? with e | _ | record
    · exact ⟨_, List.append_assoc _ _ _, rfl, .unread e⟩
    · exact ⟨_, List.append_assoc _ _ _, rfl, .blank⟩
    · dsimp only
      cases hm : r.plan.materialize record with
      | error e => exact ⟨_, List.append_assoc _ _ _, rfl, .malformed hm⟩
      | ok m => exact ⟨_, List.append_assoc _ _ _, rfl, .message hm⟩

omit [ColumnSource σ] in
/-- After a turn the reader has not ended, or the source came to its end, or the answer was an
error. -/
theorem Turn.state_cases {plan : Plan} {new : List Exchange}
    {answer : Option (Except ReadError Message)} {state : ReaderState}
    (h : Turn plan new answer state) :
    state = .iterating ∨ (state = .exhausted ∧ ∃ x ∈ new, x.isEnd) ∨
      (state = .failed ∧ ∃ e, answer = some (.error e)) := by
  cases h with
  | refused e | unread e => exact .inr (.inr ⟨rfl, e, rfl⟩)
  | ended => exact .inr (.inl ⟨rfl, _, List.mem_singleton_self _, rfl⟩)
  | blank | message _ => exact .inl rfl
  | malformed h => exact .inr (.inr ⟨rfl, _, rfl⟩)

/-! ## Runs of the iterator -/

/-- A call and the calls after it. -/
theorem draw_eq_cons (r : Reader σ) (count : Nat) :
    r.draw (count + 1) = (r.next?.1 :: (r.next?.2.draw count).1, (r.next?.2.draw count).2) :=
  draw_succ (show r.next? = (r.next?.1, r.next?.2) from rfl) count

/-- Calls after other calls are those of the reader that these leave. -/
theorem draw_add (r : Reader σ) (earlier later : Nat) :
    r.draw (earlier + later) = ((r.draw earlier).1 ++ ((r.draw earlier).2.draw later).1,
      ((r.draw earlier).2.draw later).2) := by
  induction earlier generalizing r with
  | zero => rw [Nat.zero_add]; rfl
  | succ earlier ih => rw [Nat.succ_add, draw_eq_cons, ih, draw_eq_cons, List.cons_append]

/-- The iterator gives an answer a call. -/
theorem length_draw (r : Reader σ) (count : Nat) : (r.draw count).1.length = count := by
  induction count generalizing r with
  | zero => rfl
  | succ count ih => rw [draw_eq_cons, List.length_cons, ih]

/-- The reader after a call more. -/
theorem draw_succ_snd (r : Reader σ) (count : Nat) :
    (r.draw (count + 1)).2 = (r.draw count).2.next?.2 := by
  rw [draw_add, draw_eq_cons]
  rfl

/-- The answer to a call is that of the reader after the calls before. -/
theorem getElem?_draw (r : Reader σ) {i count : Nat} (h : i < count) :
    (r.draw count).1[i]? = some (r.draw i).2.next?.1 := by
  obtain ⟨later, rfl⟩ := Nat.exists_eq_add_of_lt h
  rw [show i + later + 1 = i + (later + 1) by omega, draw_add, draw_eq_cons,
    List.getElem?_append_right (Nat.le_of_eq (length_draw r i)), length_draw, Nat.sub_self,
    List.getElem?_cons_zero]

/-- The iterator goes the same way whether the source is watched or not. -/
theorem draw_unwatched (r : Reader (Recorded σ)) (count : Nat) :
    r.unwatched.draw count = ((r.draw count).1, (r.draw count).2.unwatched) := by
  induction count generalizing r with
  | zero => rfl
  | succ count ih => rw [draw_succ (next?_unwatched r), ih, draw_eq_cons]

/-- What a number of calls of the iterator do, by their exchanges with the source. -/
structure Run (r : Reader (Recorded σ)) (count : Nat) (new : List Exchange) : Prop where
  /-- The exchanges are put on record. -/
  log : (r.draw count).2.source.log = r.source.log ++ new
  /-- The plan stays. -/
  plan : (r.draw count).2.plan = r.plan
  /-- The answers are those that the exchanges lead to, and then that there is nothing more. -/
  answers : (r.draw count).1 = new.filterMap (Exchange.item? r.plan) ++
    List.replicate (count - (new.filterMap (Exchange.item? r.plan)).length) none
  /-- Records are matched by items and blanks, and other items are refusals. -/
  counted : (r.draw count).1.countP Option.isSome + new.countP Exchange.isBlank =
    new.countP Exchange.isFetch + new.countP Exchange.isRefusal
  /-- The reader comes to the end as the source does. -/
  exhausted : (r.draw count).2.state = .exhausted → ∃ x ∈ new, x.isEnd
  /-- The reader fails with an error that it gives to the caller. -/
  failed : (r.draw count).2.state = .failed → ∃ e, some (.error e) ∈ (r.draw count).1

/-- A turn and the calls after it. -/
theorem Run.cons {r r' : Reader (Recorded σ)} {answer : Option (Except ReadError Message)}
    {new later : List Exchange} {count : Nat} (hnext : r.next? = (answer, r'))
    (hlog : r'.source.log = r.source.log ++ new) (hplan : r'.plan = r.plan)
    (hturn : Turn r.plan new answer r'.state) (h : Run r' count later) :
    Run r (count + 1) (new ++ later) := by
  have hdraw := draw_succ hnext count
  have hitems := hturn.filterMap_item?
  have hcount := hturn.count
  obtain ⟨hlog', hplan', hanswers, hcounted, hexhausted, hfailed⟩ := h
  refine ⟨?_, ?_, ?_, ?_, ?_, ?_⟩
  · rw [hdraw, hlog', hlog, List.append_assoc]
  · rw [hdraw, hplan', hplan]
  · rw [hdraw, List.filterMap_append, hitems, hanswers, hplan, List.singleton_append,
      List.cons_append, List.length_cons, Nat.add_sub_add_right]
  · rw [hdraw, ← List.singleton_append, List.countP_append, List.countP_append,
      List.countP_append, List.countP_append]
    omega
  · rw [hdraw]
    intro hs
    obtain ⟨x, hx, hend⟩ := hexhausted hs
    exact ⟨x, List.mem_append_right _ hx, hend⟩
  · rw [hdraw]
    intro hs
    obtain ⟨e, he⟩ := hfailed hs
    exact ⟨e, List.mem_cons_of_mem _ he⟩

/-- A turn that ends the read, and the calls after it. -/
theorem Run.last {r r' : Reader (Recorded σ)} {answer : Option (Except ReadError Message)}
    {new : List Exchange} (hnext : r.next? = (answer, r'))
    (hlog : r'.source.log = r.source.log ++ new) (hplan : r'.plan = r.plan)
    (hturn : Turn r.plan new answer r'.state)
    (hended : (r'.state = .exhausted ∧ ∃ x ∈ new, x.isEnd) ∨
      (r'.state = .failed ∧ ∃ e, answer = some (.error e))) (count : Nat) :
    Run r (count + 1) new := by
  have hdraw := draw_succ hnext count
  -- The calls after it have no exchanges and answer that there is nothing more.
  rw [draw_of_ended (hended.imp And.left And.left)] at hdraw
  have hitems := hturn.filterMap_item?
  have hcount := hturn.count
  refine ⟨?_, ?_, ?_, ?_, ?_, ?_⟩
  · rw [hdraw, hlog]
  · rw [hdraw, hplan]
  · rw [hdraw, hitems]
    rfl
  · rw [hdraw, ← hcount, ← List.singleton_append, List.countP_append]
    simp [List.countP_replicate]
  · rw [hdraw]
    intro hs
    rcases hended with ⟨-, hend⟩ | ⟨hstate, -⟩
    · exact hend
    · cases hstate.symm.trans hs
  · rw [hdraw]
    intro hs
    rcases hended with ⟨hstate, -⟩ | ⟨-, e, he⟩
    · cases hstate.symm.trans hs
    · exact ⟨e, he ▸ List.mem_cons_self⟩

/-- Calls of the iterator of a reader that has not ended are a run. -/
theorem run_draw {r : Reader (Recorded σ)} (h : r.state = .planned ∨ r.state = .iterating)
    (count : Nat) : ∃ new, Run r count new := by
  -- Each call is a turn, and leaves the reader open or ended.
  induction count generalizing r with
  | zero =>
    refine ⟨[], (List.append_nil _).symm, rfl, rfl, rfl, fun hs => ?_, fun hs => ?_⟩
    · have hsame : r.state = .exhausted := hs
      rcases h with h | h <;> cases h.symm.trans hsame
    · have hsame : r.state = .failed := hs
      rcases h with h | h <;> cases h.symm.trans hsame
  | succ count ih =>
    obtain ⟨new, hlog, hplan, hturn⟩ := turn_next? h
    rcases hturn.state_cases with hstate | hended
    · obtain ⟨later, hlater⟩ := ih (.inr hstate)
      exact ⟨new ++ later, .cons rfl hlog hplan hturn hlater⟩
    · exact ⟨new, .last rfl hlog hplan hturn hended count⟩

/-! ## Iteration -/

/-- The exchanges with the source in a number of calls of the iterator. -/
def exchanged (count : Nat) (r : Reader σ) : List Exchange := (r.watched.draw count).2.source.log

/-- No record that is fetched is dropped by the iterator. -/
structure Faithful (r : Reader σ) : Prop where
  /-- There is one item for each record that was fetched, and one if the source refused to move. -/
  matched : ∀ count, (r.draw count).1.countP Option.isSome =
    (r.exchanged count).countP Exchange.isFetch + (r.exchanged count).countP Exchange.isRefusal
  /-- The iterator answers that there is nothing more only after the source came to its end or an
  error was yielded. -/
  ended : ∀ count i, (r.draw count).1[i]? = some none →
    (∃ x ∈ r.exchanged (i + 1), x.isEnd) ∨
      ∃ j < i, ∃ e, (r.draw count).1[j]? = some (some (.error e))
  /-- Once it has answered so it always does. -/
  forever : ∀ count i, (r.draw count).1[i]? = some none → ∀ j, i ≤ j → j < count →
    (r.draw count).1[j]? = some none

/-- What the iterator of a reader does, by the exchanges with the source. -/
structure Iteration (r : Reader σ) : Prop where
  /-- The reader does the same whether its source is watched or not. -/
  watched : ∀ count,
    r.draw count = ((r.watched.draw count).1, (r.watched.draw count).2.unwatched)
  /-- The answers are those that the exchanges lead to, one for each record that was fetched and one
  for the end or the refusal of the source, and then that there is nothing more. -/
  answers : ∀ count, (r.draw count).1 = (r.exchanged count).filterMap (Exchange.item? r.plan) ++
    List.replicate (count - ((r.exchanged count).filterMap (Exchange.item? r.plan)).length) none
  /-- Of the records that were fetched those are not matched by an item that the source did not
  have; the other items are refusals. -/
  counted : ∀ count,
    (r.draw count).1.countP Option.isSome + (r.exchanged count).countP Exchange.isBlank =
      (r.exchanged count).countP Exchange.isFetch + (r.exchanged count).countP Exchange.isRefusal
  /-- The iterator answers that there is nothing more only after the source came to its end, or an
  error was yielded, or if the source has just not had a record. -/
  ended : ∀ count i, (r.draw count).1[i]? = some none →
    (∃ x ∈ r.exchanged (i + 1), x.isEnd) ∨
      (∃ j < i, ∃ e, (r.draw count).1[j]? = some (some (.error e))) ∨
      (r.exchanged (i + 1)).getLast? = some (.current (.ok none))
  /-- Once it has answered so it always does, unless the source has just not had a record. -/
  forever : ∀ count i, (r.draw count).1[i]? = some none →
    (r.exchanged (i + 1)).getLast? = some (.current (.ok none)) ∨
      ∀ j, i ≤ j → j < count → (r.draw count).1[j]? = some none
  /-- The iterator is faithful if the source has a record wherever it has moved to one. -/
  faithful : (∀ count, .current (.ok none) ∉ r.exchanged count) → r.Faithful

/-- A reader that has not been asked anything is watched from its start. -/
theorem run_exchanged {r : Reader σ} (h : r.state = .planned) (count : Nat) :
    Run r.watched count (r.exchanged count) := by
  obtain ⟨new, hrun⟩ := run_draw (r := r.watched) (.inl h) count
  have hlog : r.exchanged count = [] ++ new := hrun.log
  rw [List.nil_append] at hlog
  rw [hlog]
  exact hrun

/-- An answer that there is nothing more comes of a reader that has ended, or one whose source comes
to its end or has no record. -/
theorem ended_or_blank {r : Reader σ} (h : r.state = .planned) {i : Nat}
    (hanswer : (r.watched.draw i).2.next?.1 = none) :
    ((r.watched.draw (i + 1)).2.state = .exhausted ∧ ∃ x ∈ r.exchanged (i + 1), x.isEnd) ∨
      ((r.watched.draw (i + 1)).2.state = .failed ∧
        ∃ e, some (.error e) ∈ (r.watched.draw i).1) ∨
      (r.exchanged (i + 1)).getLast? = some (.current (.ok none)) := by
  have hrun := run_exchanged h i
  have hafter : (r.watched.draw (i + 1)).2 = (r.watched.draw i).2.next?.2 :=
    draw_succ_snd r.watched i
  have hopen : (r.watched.draw i).2.state = .planned ∨ (r.watched.draw i).2.state = .iterating →
      ((r.watched.draw (i + 1)).2.state = .exhausted ∧ ∃ x ∈ r.exchanged (i + 1), x.isEnd) ∨
      (r.exchanged (i + 1)).getLast? = some (.current (.ok none)) := by
    intro hs
    obtain ⟨new, hlog, -, hturn⟩ := turn_next? hs
    rw [exchanged, hafter, hlog]
    rw [hanswer] at hturn
    generalize (r.watched.draw i).2.next?.2.state = state at hturn ⊢
    cases hturn with
    | ended => exact .inl ⟨rfl, _, List.mem_append_right _ List.mem_cons_self, rfl⟩
    | blank => exact .inr (by simp)
  cases hs : (r.watched.draw i).2.state with
  | planned => exact (hopen (.inl hs)).imp_right .inr
  | iterating => exact (hopen (.inr hs)).imp_right .inr
  | exhausted =>
    rw [next?_of_ended (.inl hs)] at hafter
    refine .inl ⟨hafter ▸ hs, ?_⟩
    rw [exchanged, hafter]
    exact hrun.exhausted hs
  | failed =>
    rw [next?_of_ended (.inr hs)] at hafter
    exact .inr (.inl ⟨hafter ▸ hs, hrun.failed hs⟩)

/-- A reader that has not been asked anything goes the same way as when it is watched. -/
theorem draw_eq_watched (r : Reader σ) (count : Nat) :
    r.draw count = ((r.watched.draw count).1, (r.watched.draw count).2.unwatched) :=
  draw_unwatched r.watched count

/-- An answer is that of the watched reader after the calls before it. -/
theorem next?_of_getElem?_draw {r : Reader σ} {count i : Nat}
    {answer : Option (Except ReadError Message)} (h : (r.draw count).1[i]? = some answer) :
    i < count ∧ (r.watched.draw i).2.next?.1 = answer := by
  have hi : i < count := by
    have := (List.getElem?_eq_some_iff.1 h).1
    rwa [length_draw] at this
  rw [draw_eq_watched, getElem?_draw _ hi] at h
  exact ⟨hi, Option.some.inj h⟩

/-- Before an answer that there is nothing more the source came to its end or an error was yielded,
unless the source has just not had a record. -/
theorem end_or_error_of_none {r : Reader σ} (h : r.state = .planned) {count i : Nat}
    (hnone : (r.draw count).1[i]? = some none) :
    (∃ x ∈ r.exchanged (i + 1), x.isEnd) ∨
      (∃ j < i, ∃ e, (r.draw count).1[j]? = some (some (.error e))) ∨
      (r.exchanged (i + 1)).getLast? = some (.current (.ok none)) := by
  obtain ⟨hi, hanswer⟩ := next?_of_getElem?_draw hnone
  rcases ended_or_blank h hanswer with ⟨-, hend⟩ | ⟨-, e, he⟩ | hblank
  · exact .inl hend
  · -- The error stands among the answers before.
    obtain ⟨j, hj⟩ := List.mem_iff_getElem?.1 he
    have hji : j < i := by
      have := (List.getElem?_eq_some_iff.1 hj).1
      rwa [length_draw] at this
    refine .inr (.inl ⟨j, hji, e, ?_⟩)
    rw [draw_eq_watched, getElem?_draw _ (hji.trans hi), ← getElem?_draw _ hji]
    exact hj
  · exact .inr (.inr hblank)

/-- After an answer that there is nothing more all answers are so, unless the source has just not
had a record. -/
theorem forever_of_none {r : Reader σ} (h : r.state = .planned) {count i : Nat}
    (hnone : (r.draw count).1[i]? = some none) :
    (r.exchanged (i + 1)).getLast? = some (.current (.ok none)) ∨
      ∀ j, i ≤ j → j < count → (r.draw count).1[j]? = some none := by
  have hstays : (r.watched.draw (i + 1)).2.state = .exhausted ∨
      (r.watched.draw (i + 1)).2.state = .failed →
      ∀ j, i ≤ j → j < count → (r.draw count).1[j]? = some none := by
    intro hs j hij hj
    rcases Nat.eq_or_lt_of_le hij with rfl | hlt
    · exact hnone
    · obtain ⟨more, rfl⟩ := Nat.exists_eq_add_of_le hlt
      rw [draw_eq_watched, getElem?_draw _ hj, draw_add, draw_of_ended hs, next?_of_ended hs]
  rcases ended_or_blank h (next?_of_getElem?_draw hnone).2 with ⟨hs, -⟩ | ⟨hs, -⟩ | hblank
  · exact .inr (hstays (.inl hs))
  · exact .inr (hstays (.inr hs))
  · exact .inl hblank

/-- Records are matched by items and blanks, and other items are refusals. -/
theorem count_draw {r : Reader σ} (h : r.state = .planned) (count : Nat) :
    (r.draw count).1.countP Option.isSome + (r.exchanged count).countP Exchange.isBlank =
      (r.exchanged count).countP Exchange.isFetch +
        (r.exchanged count).countP Exchange.isRefusal := by
  rw [draw_eq_watched]
  exact (run_exchanged h count).counted

/-- The iterator is faithful if the source has a record wherever it has moved to one. -/
theorem faithful_of_notMem {r : Reader σ} (h : r.state = .planned)
    (hhas : ∀ count, .current (.ok none) ∉ r.exchanged count) : r.Faithful := by
  refine ⟨fun count => ?_, fun count i hnone => ?_, fun count i hnone => ?_⟩
  · have hzero : (r.exchanged count).countP Exchange.isBlank = 0 :=
      List.countP_eq_zero.2 fun x hx hblank => hhas count (x.eq_of_isBlank hblank ▸ hx)
    have := count_draw h count
    omega
  · rcases end_or_error_of_none h hnone with hend | herror | hblank
    · exact .inl hend
    · exact .inr herror
    · exact absurd (List.mem_of_getLast? hblank) (hhas _)
  · rcases forever_of_none h hnone with hblank | hstays
    · exact absurd (List.mem_of_getLast? hblank) (hhas _)
    · exact hstays

/-- Each record that a reader fetches as an iterator is matched by one answer, which is an item
unless the source did not have the record. Nothing is dropped if the source always has it: then the
iterator answers that there is nothing more only at the end or after an error, and for good. -/
theorem iteration_of_ofSource {source : σ} {s : Schema} {selection : Selection} {r : Reader σ}
    (h : ofSource source s selection = .ok r) : r.Iteration := by
  have hplanned := (state_of_ofSource h).1
  refine ⟨draw_eq_watched r, fun count => ?_, count_draw hplanned,
    fun count i => end_or_error_of_none hplanned, fun count i => forever_of_none hplanned,
    faithful_of_notMem hplanned⟩
  rw [draw_eq_watched]
  exact (run_exchanged hplanned count).answers

end Reader

/-- Rows in memory of which none is current for a number of calls. -/
structure Withheld where
  /-- The rows. -/
  source : MemorySource
  /-- The number of calls. -/
  blanks : Nat
deriving DecidableEq, Repr

instance : ColumnSource Withheld where
  columnCount s := s.source.columnCount
  metadata? s := s.source.metadata?
  selectColumns columns s :=
    ((s.source.selectColumns columns).1, { s with source := (s.source.selectColumns columns).2 })
  advance s := (s.source.advance.1, { s with source := s.source.advance.2 })
  current s :=
    match s.blanks with
    | 0 => (.ok s.source.current?, s)
    | blanks + 1 => (.ok none, { s with blanks := blanks })

namespace Reader

/-- A source of two rows with the same text and the same map, none of them current at first for a
number of calls. -/
def withheldSource (blanks : Nat) : Withheld :=
  ⟨{ regularSource with rows := List.replicate 2 ⟨[[5, 10, 1, 107, 16, 5], [10, 1, 120]]⟩ }, blanks⟩

/-- A reader of the text and the map of the rows. -/
def withheldReader (blanks : Nat) : Reader Withheld :=
  { regularReader with
    source := { withheldSource blanks with
      source := { (withheldSource blanks).source with selected := some [0, 1] } } }

/-- The reader is opened on the source. -/
theorem ofSource_withheldSource (blanks : Nat) :
    ofSource (withheldSource blanks) Sample.regular (.indices [0, 2]) =
      .ok (withheldReader blanks) := by
  have hstored : StoredFields.ofSource (withheldSource blanks) = .ok ⟨[3, -1]⟩ :=
    stored_regularSource (withheldSource blanks).source.rows
  unfold ofSource openNumbers
  rw [hstored]
  rfl

/-- The exchanges of three calls of the iterator with a source that withholds its first row. -/
theorem exchanged_withheldReader :
    (withheldReader 1).exchanged 3 = [.advance (.ok true), .current (.ok none),
      .advance (.ok true), .current (.ok (some ⟨[[5, 10, 1, 107, 16, 5], [10, 1, 120]]⟩)),
      .advance (.ok false)] := by
  cbv

/-- Of two rows of which one is withheld the iterator yields one, in the place of the other
answering that there is nothing more. -/
theorem iteration_withheldReader :
    ofSource (withheldSource 1) Sample.regular (.indices [0, 2]) = .ok (withheldReader 1) ∧
      ((withheldReader 1).draw 3).1.countP Option.isSome + 1 = 2 + 0 ∧
      ((withheldReader 1).draw 3).1 = [none, some (.ok
        ⟨[(1, .value (.string "x")), (3, .value (.map [(.string "k", .i32 5)]))]⟩), none] := by
  have hopen := ofSource_withheldSource 1
  have hiteration := iteration_of_ofSource hopen
  have hmessage : (withheldReader 1).plan.materialize ⟨[[5, 10, 1, 107, 16, 5], [10, 1, 120]]⟩ =
      .ok ⟨[(1, .value (.string "x")), (3, .value (.map [(.string "k", .i32 5)]))]⟩ := by
    cbv
  have hcounted := hiteration.counted 3
  have hanswers := hiteration.answers 3
  rw [exchanged_withheldReader] at hcounted hanswers
  refine ⟨hopen, hcounted, hanswers.trans ?_⟩
  simp only [List.filterMap_cons, List.filterMap_nil, Exchange.item?, hmessage]
  rfl

/-- A source that does not have a record where it has moved to one makes the iterator drop it: the
first answer is that there is nothing more, the second one is an item. -/
theorem not_faithful_withheldReader :
    ofSource (withheldSource 1) Sample.regular (.indices [0, 2]) = .ok (withheldReader 1) ∧
      ((withheldReader 1).draw 3).1 = [none, some (.ok
        ⟨[(1, .value (.string "x")), (3, .value (.map [(.string "k", .i32 5)]))]⟩), none] ∧
      ((withheldReader 1).exchanged 3).countP Exchange.isFetch = 2 ∧
      ¬(withheldReader 1).Faithful := by
  have hdraw : ((withheldReader 1).draw 3).1 = [none, some (.ok
      ⟨[(1, .value (.string "x")), (3, .value (.map [(.string "k", .i32 5)]))]⟩), none] := by
    cbv
  have hcount : ((withheldReader 1).exchanged 3).countP Exchange.isFetch = 2 := by
    rw [exchanged_withheldReader]
    rfl
  refine ⟨ofSource_withheldSource 1, hdraw, hcount, fun h => ?_⟩
  have hforever := h.forever 3 0 (by rw [hdraw]; rfl) 1 (by decide) (by decide)
  rw [hdraw] at hforever
  cases hforever

end Reader

end ColumnarRecords
