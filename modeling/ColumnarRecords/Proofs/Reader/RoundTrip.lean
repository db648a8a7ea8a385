import ColumnarRecords.Proofs.Descriptor.Loading
import ColumnarRecords.Proofs.Projection.Shredded
import ColumnarRecords.Proofs.Reader.Draining

/-!
# What is shredded is read back

Messages that are split into the columns of a source are read back from it one by one
(`Reader.draw_shred`): each without the fields that the plan does not read, and trimmed to the
fields that are set, and after the last one nothing more. It is put together from what a plan builds
of one record (`Plan.materialize_shred`) and from what a reader answers
(`Reader.draw_of_standsBefore`).

What the statement asks of messages and maps cannot be left out: `Reader.draw_loose` is a read in
which an empty list, a key in a oneof with its value and a repeated key are each not read back.
-/

namespace ColumnarRecords

open Descriptor Wire Message

/-- Items without an error among them are all of them. -/
theorem upToError_map_ok {ε α : Type} (l : List α) :
    upToError (l.map (Except.ok : α → Except ε α)) = l.map .ok := by
  induction l with
  | nil => rfl
  | cons a rest ih => rw [List.map_cons, upToError, ih]

namespace Reader

/-- A reader follows the plan for the fields that were asked for. -/
theorem ofNumbers_of_ofSource {source : MemorySource} {s : Schema} {selection : Selection}
    {r : Reader MemorySource} (h : ofSource source s selection = .ok r) {stored : StoredFields}
    (hstored : StoredFields.ofSource source = .ok stored) {numbers : List Nat}
    (hnumbers : selection.resolve s = .ok numbers) :
    Plan.ofNumbers s numbers stored = .ok r.plan := by
  obtain ⟨_, hresolve, hopen⟩ := openNumbers_of_ofSource h
  obtain ⟨_, hof, hplan, -⟩ := openNumbers_eq_ok hopen
  obtain rfl := Except.ok.inj (hresolve.symm.trans hnumbers)
  obtain rfl := Except.ok.inj (hof.symm.trans hstored)
  exact hplan

/-- A reader over messages that were split into columns answers with each of them in turn, and then
that there is nothing more: the fields with a column of their own that were asked for, all others
just if the column of all other fields is read, and of these the ones that are set. The entries of a
map may have been written in any order, in full or without the parts that need not be written. -/
theorem draw_shred {set : List UInt8} {name : String} {s : Schema}
    (hs : Schema.ofDescriptorSet set name = .ok s) {source : MemorySource}
    (hsource : source.Prepared) {stored : StoredFields}
    (hstored : StoredFields.ofSource source = .ok stored) (hdistinct : stored.Distinct)
    (hgroup : ∀ f ∈ s.fields, stored.contains f.number = true → f.isGroup = false)
    {form : EntryForm} {messages : List Message}
    (hmessages : ∀ m ∈ messages, m.IsOf s.pool Field.HoldsSome nestingLimit s.index)
    (hrows : source.rows = messages.map (stored.shred form s))
    (hlen : ∀ row ∈ source.rows, ∀ column ∈ row.columns, column.length < 2 ^ 64)
    {selection : Selection} {numbers : List Nat} (hnumbers : selection.resolve s = .ok numbers)
    (hregular : stored.Regular form s numbers) {r : Reader MemorySource}
    (hr : ofSource source s selection = .ok r) (count : Nat) :
    (r.draw count).1 =
      ((messages.map fun m =>
        (m.restrict (r.plan.keeps stored numbers)).trim form s.pool s.index).take count).map
          (fun m => some (.ok m)) ++
        List.replicate (count - messages.length) none := by
  have hplan := ofNumbers_of_ofSource hr hstored hnumbers
  have hsound := Schema.sound_of_ofDescriptorSet hs
  have hitems : source.rows.map r.plan.materialize =
      (messages.map fun m =>
        (m.restrict (r.plan.keeps stored numbers)).trim form s.pool s.index).map .ok := by
    -- Each row is that of one message, and the plan builds this message from it.
    rw [hrows, List.map_map, List.map_map]
    refine List.map_congr_left fun m hm => ?_
    have hrow : stored.shred form s m ∈ source.rows := hrows ▸ List.mem_map_of_mem hm
    exact Plan.materialize_shred hsound hplan (hmessages m hm) (hlen _ hrow) hdistinct hgroup
      hregular
  have hdraw := (draw_of_standsBefore (standsBefore_of_ofSource hsource hr) count).1
  rw [List.drop_zero, hitems, upToError_map_ok] at hdraw
  rw [hdraw, List.length_map, List.length_map, ← List.map_take, List.map_map]
  rfl

/-- Two messages of the regular type: a text and a map, and numbers with a message whose only field
is not set. The keys of the map do not ascend, and one of its values is zero. -/
def regularMessages : List Message :=
  [⟨[(1, .value (.string "x")), (3, .value (.map [(.string "k", .i32 0), (.string "a", .i32 5)]))]⟩,
    ⟨[(2, .value (.list [.i32 3, .i32 4])), (4, .value (.message ⟨[(1, .value (.string ""))]⟩))]⟩]

/-- The rows that the messages are split into. -/
def regularRows : EntryForm → List Record
  | .full => [⟨[[5, 10, 1, 107, 16, 0, 5, 10, 1, 97, 16, 5], [10, 1, 120]]⟩,
    ⟨[[], [18, 2, 3, 4, 34, 0]]⟩]
  | .terse => [⟨[[3, 10, 1, 107, 5, 10, 1, 97, 16, 5], [10, 1, 120]]⟩, ⟨[[], [18, 2, 3, 4, 34, 0]]⟩]

/-- The entries of the regular map are pairs. -/
theorem regular_regular (form : EntryForm) :
    StoredFields.Regular ⟨[3, -1]⟩ form Sample.regular [1, 3] := by
  intro f hf _ _ entry harity
  simp only [Sample.regular, Schema.fields, Schema.type] at hf
  rcases List.mem_cons.1 hf with rfl | hf
  · cases harity
  rcases List.mem_cons.1 hf with rfl | hf
  · cases harity
  rcases List.mem_cons.1 hf with rfl | hf
  · obtain rfl := Arity.map.inj harity
    exact Plan.isEntry_regular.isPair form
  · obtain rfl := List.mem_singleton.1 hf
    cases harity

/-- The regular type has no oneof. -/
theorem siblings_regular {n : Nat} {f : Field} (hf : Sample.regular.type.fields.find? n = some f) :
    Sample.regular.type.siblings f = [] := by
  obtain ⟨hmem, -⟩ := FieldTable.find?_eq_some_iff.1 hf
  have honeof : f.oneof = none := by
    simp only [Sample.regular, Schema.type] at hmem
    rcases List.mem_cons.1 hmem with rfl | hmem
    · rfl
    rcases List.mem_cons.1 hmem with rfl | hmem
    · rfl
    rcases List.mem_cons.1 hmem with rfl | hmem
    · rfl
    obtain rfl := List.mem_singleton.1 hmem
    rfl
  rw [MessageType.siblings, honeof]

/-- The messages are of the regular type. -/
theorem isOf_regularMessages : ∀ m ∈ regularMessages,
    m.IsOf Sample.regular.pool Field.HoldsSome nestingLimit Sample.regular.index := by
  have hnone : ∀ {n : Nat} {f : Field},
      (Sample.regular.pool.message Sample.regular.index).fields.find? n = some f →
        (Sample.regular.pool.message Sample.regular.index).siblings f = [] := siblings_regular
  have hinner : Message.IsOf Sample.regular.pool Field.HoldsSome 99 0
      ⟨[(1, .value (.string ""))]⟩ :=
    conforms_singleton ⟨_, rfl, .single rfl trivial, fun h => absurd h Bool.false_ne_true⟩
  intro m hm
  rcases List.mem_cons.1 hm with rfl | hm
  · refine ⟨by decide, fun x hx => ?_, fun x _ f hf y _ => by simp [hnone hf]⟩
    rcases List.mem_cons.1 hx with rfl | hx
    · exact ⟨_, _, rfl, rfl, .single rfl trivial, fun h => absurd h Bool.false_ne_true⟩
    obtain rfl := List.mem_singleton.1 hx
    refine ⟨_, _, rfl, rfl, .map rfl (fun e he => ?_) (fun _ _ => rfl) fun e he valueField hv => ?_,
      fun h => absurd h Bool.false_ne_true⟩
    · fin_cases he <;> exact ⟨_, rfl, trivial⟩
    · obtain rfl := Option.some.inj hv
      fin_cases he <;> exact .single rfl trivial
  · obtain rfl := List.mem_singleton.1 hm
    refine ⟨by decide, fun x hx => ?_, fun x _ f hf y _ => by simp [hnone hf]⟩
    rcases List.mem_cons.1 hx with rfl | hx
    · refine ⟨_, _, rfl, rfl, .list rfl fun v hv => ?_, fun h => absurd h Bool.false_ne_true⟩
      fin_cases hv <;> exact trivial
    · obtain rfl := List.mem_singleton.1 hx
      exact ⟨_, _, rfl, rfl, .single rfl hinner, fun _ => ⟨by simp, by simp⟩⟩

/-- A reader of the map and the text of the rows. -/
def regularRowsReader (form : EntryForm) : Reader MemorySource :=
  { regularReader with source := { regularReader.source with rows := regularRows form } }

/-- The messages are read back from either form: the first one with the entries of its map in order,
the second one without the field in its message that is not set, but with the numbers and the message
that were not asked for, since the text, which was, is in the same column. -/
theorem draw_shred_regular :
    ((regularRowsReader .full).draw 3).1 =
      [some (.ok ⟨[(1, .value (.string "x")),
          (3, .value (.map [(.string "a", .i32 5), (.string "k", .i32 0)]))]⟩),
        some (.ok ⟨[(2, .value (.list [.i32 3, .i32 4])), (4, .value (.message .empty))]⟩),
        none] ∧
      ((regularRowsReader .terse).draw 3).1 = ((regularRowsReader .full).draw 3).1 := by
  have hprepared : ∀ form, { regularSource with rows := regularRows form }.Prepared := by
    intro form
    have hempty : { regularSource with rows := [] }.Prepared := .addMetadata _ _ (.ofWidth 2)
    cases form with
    | full =>
      have hone : { regularSource with rows := (regularRows .full).take 1 }.Prepared :=
        .push ⟨[[5, 10, 1, 107, 16, 0, 5, 10, 1, 97, 16, 5], [10, 1, 120]]⟩ hempty rfl
      exact .push ⟨[[], [18, 2, 3, 4, 34, 0]]⟩ hone rfl
    | terse =>
      have hone : { regularSource with rows := (regularRows .terse).take 1 }.Prepared :=
        .push ⟨[[3, 10, 1, 107, 5, 10, 1, 97, 16, 5], [10, 1, 120]]⟩ hempty rfl
      exact .push ⟨[[], [18, 2, 3, 4, 34, 0]]⟩ hone rfl
  have hdistinct : StoredFields.Distinct ⟨[3, -1]⟩ := ⟨[3], .inr rfl, by decide, by simp⟩
  have hrows : ∀ form, regularRows form =
      regularMessages.map (StoredFields.shred ⟨[3, -1]⟩ form Sample.regular) := by
    intro form
    cases form <;> cbv
  have hlen : ∀ form, ∀ row ∈ regularRows form, ∀ column ∈ row.columns, column.length < 2 ^ 64 := by
    intro form
    cases form <;> decide
  have hdraw := fun form => draw_shred Sample.ofDescriptorSet_regularSet (hprepared form)
    (stored_regularSource (regularRows form)) hdistinct (by decide)
    isOf_regularMessages (hrows form) (hlen form) rfl (regular_regular form)
    (ofSource_regularSource (regularRows form)) 3
  unfold regularRowsReader
  rw [hdraw .full, hdraw .terse]
  exact ⟨by cbv, by cbv⟩

/-- Messages of the loose type: numbers of which there are none, and two maps of an entry, one whose
key and value are in a oneof and one whose key is repeated. -/
def looseMessages : List Message :=
  [⟨[(1, .value (.list []))]⟩, ⟨[(2, .value (.map [(.string "a", .i32 5)]))]⟩,
    ⟨[(5, .value (.map [(.string "a", .i32 5)]))]⟩]

/-- The rows that the messages are split into. -/
def looseRows : List Record :=
  [⟨[[], [], []]⟩, ⟨[[], [5, 10, 1, 97, 16, 5], []]⟩, ⟨[[], [], [5, 10, 1, 97, 16, 5]]⟩]

/-- The metadata that says that the numbers and the two maps have columns of their own. -/
def looseMetadata : List UInt8 :=
  [102, 105, 101, 108, 100, 95, 105, 100, 58, 32, 49, 32, 102, 105, 101, 108, 100, 95, 105, 100, 58,
    32, 50, 32, 102, 105, 101, 108, 100, 95, 105, 100, 58, 32, 53]

/-- A source of the rows. -/
def looseSource : MemorySource :=
  ⟨3, looseRows, [(Metadata.key, looseMetadata)], none, none, false⟩

/-- A reader of the fields of the rows. -/
def looseReader : Reader MemorySource :=
  ⟨{ looseSource with selected := some [0, 1, 2] },
    ⟨Sample.loose, [(0, { Sample.field "b.B." "x" 1 (.scalar .int32) .list (.i32 0) with
        hasPresence := true, oneof := some 0 }),
      (1, Sample.field "b.B." "m" 2 (.message 1) (.map 1) (.message .empty)),
      (2, Sample.field "b.B." "r" 5 (.message 4) (.map 4) (.message .empty))], none, [],
      [1, 2, 5], 3⟩, .planned, none, 0⟩

/-- The messages are of the loose type. -/
theorem isOf_looseMessages : ∀ m ∈ looseMessages,
    m.IsOf Sample.loose.pool (fun _ _ => True) nestingLimit Sample.loose.index := by
  intro m hm
  rcases List.mem_cons.1 hm with rfl | hm
  · exact conforms_singleton ⟨_, rfl, .list rfl fun v hv => absurd hv List.not_mem_nil, trivial⟩
  rcases List.mem_cons.1 hm with rfl | hm
  all_goals
    try obtain rfl := List.mem_singleton.1 hm
    refine conforms_singleton ⟨_, rfl, .map rfl (fun e he => ?_) (fun _ _ => rfl)
      fun e he valueField hv => ?_, trivial⟩
    · obtain rfl := List.mem_singleton.1 he
      exact ⟨_, rfl, trivial⟩
    · obtain rfl := List.mem_singleton.1 he
      obtain rfl := Option.some.inj hv
      exact .single rfl trivial

/-- The source of the loose rows is as it can be before a record is asked for. -/
theorem prepared_looseSource : looseSource.Prepared := by
  have hempty : { looseSource with rows := [] }.Prepared := .addMetadata _ _ (.ofWidth 3)
  have hone : { looseSource with rows := looseRows.take 1 }.Prepared :=
    .push ⟨[[], [], []]⟩ hempty rfl
  have htwo : { looseSource with rows := looseRows.take 2 }.Prepared :=
    .push ⟨[[], [5, 10, 1, 97, 16, 5], []]⟩ hone rfl
  exact .push ⟨[[], [], [5, 10, 1, 97, 16, 5]]⟩ htwo rfl

/-- The fields that the metadata of the source says are stored. -/
theorem stored_looseSource : StoredFields.ofSource looseSource = .ok ⟨[1, 2, 5]⟩ := by
  have hparse : Metadata.parse looseMetadata = .ok ⟨none, [1, 2, 5]⟩ := by
    cbv
  have hmetadata : ColumnSource.metadata? looseSource Metadata.key = some looseMetadata := rfl
  unfold StoredFields.ofSource
  rw [hmetadata]
  simp only [hparse]
  rfl

/-- The reader is opened on the source. -/
theorem ofSource_looseSource :
    ofSource looseSource Sample.loose (.indices [0, 1, 4]) = .ok looseReader := by
  unfold ofSource openNumbers
  rw [stored_looseSource]
  rfl

/-- What the statement asks of messages and maps cannot be left out. Of three messages of the loose
type, whose fields are all read, none is read back: the first has an empty list in a oneof, the map
of the second a value that clears the key, and that of the third a key that is repeated. -/
theorem draw_loose :
    Schema.ofDescriptorSet Sample.looseSet "b.B" = .ok Sample.loose ∧ looseSource.Prepared ∧
      StoredFields.ofSource looseSource = .ok ⟨[1, 2, 5]⟩ ∧ StoredFields.Distinct ⟨[1, 2, 5]⟩ ∧
      (∀ f ∈ Sample.loose.fields, StoredFields.contains ⟨[1, 2, 5]⟩ f.number = true →
        f.isGroup = false) ∧
      (∀ m ∈ looseMessages,
        m.IsOf Sample.loose.pool (fun _ _ => True) nestingLimit Sample.loose.index) ∧
      looseSource.rows = looseMessages.map (StoredFields.shred ⟨[1, 2, 5]⟩ .full Sample.loose) ∧
      (Selection.indices [0, 1, 4]).resolve Sample.loose = .ok [1, 2, 5] ∧
      ofSource looseSource Sample.loose (.indices [0, 1, 4]) = .ok looseReader ∧
      (looseMessages.map fun m =>
        (m.restrict (looseReader.plan.keeps ⟨[1, 2, 5]⟩ [1, 2, 5])).trim .full Sample.loose.pool
          Sample.loose.index) = looseMessages ∧
      (looseReader.draw 3).1 =
        [some (.ok .empty), some (.ok ⟨[(2, .value (.map [(.string "", .i32 5)]))]⟩),
          some (.error (.decode "b.B.r" 2 .invalidMapKey))] := by
  have hdistinct : StoredFields.Distinct ⟨[1, 2, 5]⟩ := ⟨[1, 2, 5], .inl rfl, by decide, by simp⟩
  have hrows : looseSource.rows =
      looseMessages.map (StoredFields.shred ⟨[1, 2, 5]⟩ .full Sample.loose) := by
    cbv
  refine ⟨Sample.ofDescriptorSet_looseSet, prepared_looseSource, stored_looseSource, hdistinct,
    by decide, isOf_looseMessages, hrows, rfl, ofSource_looseSource, by cbv, ?_⟩
  -- What is drawn is what the plan builds of each row.
  have hbefore := standsBefore_of_ofSource prepared_looseSource ofSource_looseSource
  have hdraw := draw_of_standsBefore hbefore 3
  have hlist : looseReader.plan.materialize ⟨[[], [], []]⟩ = .ok .empty := by
    cbv
  have hcleared : looseReader.plan.materialize ⟨[[], [5, 10, 1, 97, 16, 5], []]⟩ =
      .ok ⟨[(2, .value (.map [(.string "", .i32 5)]))]⟩ := by
    cbv
  have hrepeated : looseReader.plan.materialize ⟨[[], [], [5, 10, 1, 97, 16, 5]]⟩ =
      .error (.decode "b.B.r" 2 .invalidMapKey) := by
    cbv
  rw [hdraw.1]
  simp only [looseSource, looseRows, List.drop_zero, List.map_cons, hlist, hcleared, hrepeated]
  rfl

end Reader

end ColumnarRecords
