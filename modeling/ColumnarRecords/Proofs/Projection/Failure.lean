import ColumnarRecords.Proofs.Projection.Columnwise
import ColumnarRecords.Proofs.Projection.Retagged

/-!
# Which column fails a record

Whether a record can be read is decided column by column. `Plan.faultOf` says what is wrong with a
planned column taken by itself: the record does not reach it, or its bytes cannot be decoded into
an empty message. A record is read exactly if nothing is wrong with any planned column, and
otherwise it fails with the fault of the first one that has one; what the other columns hold does
not matter (`Plan.materialize_columnwise`).

All columns are decoded into one message, so a column sees what those before it have left.
`Plan.decidedBy_addKnown` and `Plan.decidedBy_addUnknowns` say that this changes neither whether it
fails nor how.
-/

namespace ColumnarRecords

open Descriptor Message

section Steps

variable {α σ ε : Type}

/-- A result is a fault, or a success if there is none. -/
def DecidedBy (fault : Option ε) (result : Except ε σ) : Prop :=
  match fault with
  | some e => result = .error e
  | none => ∃ s, result = .ok s

/-- There is a success exactly if there is no fault. -/
theorem DecidedBy.exists_ok_iff {fault : Option ε} {result : Except ε σ}
    (h : DecidedBy fault result) : (∃ s, result = .ok s) ↔ fault = none := by
  cases fault <;> simp_all [DecidedBy]

/-- A failure is the fault. -/
theorem DecidedBy.eq_error_iff {fault : Option ε} {result : Except ε σ}
    (h : DecidedBy fault result) (e : ε) : result = .error e ↔ fault = some e := by
  cases fault with
  | some e' => simp_all [DecidedBy]
  | none =>
    obtain ⟨s, rfl⟩ := h
    simp

/-- A run of steps that are decided by their items, whatever the state, is decided by the first
fault of an item. -/
theorem decidedBy_foldlM {step : σ → α → Except ε σ} {fault : α → Option ε} {items : List α}
    (h : ∀ a ∈ items, ∀ s, DecidedBy (fault a) (step s a)) (s : σ) :
    DecidedBy (items.findSome? fault) (items.foldlM step s) := by
  induction items generalizing s with
  | nil => exact ⟨s, rfl⟩
  | cons a rest ih =>
    obtain ⟨ha, hrest⟩ := List.forall_mem_cons.1 h
    rw [List.findSome?_cons, List.foldlM_cons]
    have hstep := ha s
    cases hfault : fault a with
    | some e =>
      rw [hfault] at hstep
      exact hstep ▸ rfl
    | none =>
      rw [hfault] at hstep
      obtain ⟨s', hs'⟩ := hstep
      rw [hs']
      exact ih hrest s'

/-- In an ascending list, the first fault of an item is that of the lowest item with a fault. -/
theorem findSome?_eq_some_iff_of_ascending {fault : Nat → Option ε} {items : List Nat}
    (h : items.Pairwise (· < ·)) {e : ε} :
    items.findSome? fault = some e ↔
      ∃ a ∈ items, fault a = some e ∧ ∀ b ∈ items, b < a → fault b = none := by
  induction items with
  | nil => simp
  | cons a rest ih =>
    obtain ⟨hhead, htail⟩ := List.pairwise_cons.1 h
    rw [List.findSome?_cons]
    cases hfault : fault a with
    | some e' =>
      simp only [Option.some.injEq]
      constructor
      · rintro rfl
        refine ⟨a, List.mem_cons_self, hfault, fun b hb hlt => ?_⟩
        rcases List.mem_cons.1 hb with rfl | hb
        · exact absurd hlt (Nat.lt_irrefl _)
        · exact absurd hlt (Nat.lt_asymm (hhead b hb))
      · rintro ⟨b, hb, hb', hlowest⟩
        rcases List.mem_cons.1 hb with rfl | hb
        · exact Option.some.inj (hfault.symm.trans hb')
        · exact absurd (hfault.symm.trans (hlowest a List.mem_cons_self (hhead b hb))) (by simp)
    | none =>
      simp only [ih htail, List.mem_cons, exists_eq_or_imp, forall_eq_or_imp, hfault]
      simp

end Steps

namespace Plan

/-- The field that a planned column holds alone; the column of all other fields has none. -/
def fieldAt? (p : Plan) (column : Nat) : Option Field :=
  (p.known.find? (·.1 == column)).map Prod.snd

/-- What is wrong with a planned column of a record, taken by itself. -/
def faultOf (p : Plan) (r : Record) (column : Nat) : Option ReadError :=
  match r.column? column, p.fieldAt? column with
  | none, _ => some (.columnOutOfRange column r.width)
  | some [], _ => none
  | some bytes, some f =>
    match Column.decodeField p.schema.pool p.schema.type f bytes .empty with
    | .error fault => some (.decode f.fullName column fault)
    | .ok _ => none
  | some bytes, none =>
    match merge p.schema.pool p.schema.index .empty bytes with
    | .error fault => some (.unknownFields column fault)
    | .ok _ => none

variable {p : Plan} {r : Record}

/-- A known column, taken by itself, is decoded into an empty message. -/
theorem fieldAt?_of_mem (h : p.columns.Pairwise (· < ·)) {known : Nat × Field}
    (hknown : known ∈ p.known) : p.fieldAt? known.1 = some known.2 := by
  have hascending : p.known.Pairwise fun a b => a.1 < b.1 :=
    List.pairwise_map.1 (List.pairwise_append.1 h).1
  rw [fieldAt?, find?_of_mem hascending hknown]
  rfl

/-- The column of all other fields, taken by itself, is merged into an empty message. -/
theorem fieldAt?_of_unknownsColumn (h : p.columns.Pairwise (· < ·)) {column : Nat}
    (hcolumn : p.unknownsColumn = some column) : p.fieldAt? column = none := by
  have hbefore := (List.pairwise_append.1 h).2.2
  rw [fieldAt?, Option.map_eq_none_iff, List.find?_eq_none]
  intro known hknown heq
  have hlt := hbefore known.1 (List.mem_map_of_mem hknown) column (by simp [hcolumn])
  have : known.1 = column := by simpa using heq
  omega

/-- Whether a known column fails, and how, is said by the column alone. -/
theorem decidedBy_addKnown (h : p.columns.Pairwise (· < ·)) (m : Message)
    {known : Nat × Field} (hknown : known ∈ p.known) :
    DecidedBy (p.faultOf r known.1) (p.addKnown r m known) := by
  simp only [faultOf, fieldAt?_of_mem h hknown, addKnown, bytesOf]
  cases r.column? known.1 with
  | none => rfl
  | some bytes =>
    cases bytes with
    | nil => exact ⟨m, rfl⟩
    | cons b rest =>
      simp only [Column.decodeField_eq]
      obtain ⟨fault, hfail⟩ | ⟨change, hok⟩ :=
        Column.readField_uniform p.schema.pool known.2 (b :: rest)
      · simp only [hfail]
        rfl
      · simp only [hok]
        exact ⟨_, rfl⟩

/-- Whether the column of all other fields fails, and how, is said by the column alone. -/
theorem decidedBy_addUnknowns (h : p.columns.Pairwise (· < ·)) (m : Message)
    {column : Nat} (hcolumn : p.unknownsColumn = some column) :
    DecidedBy (p.faultOf r column) (p.addUnknowns r m column) := by
  simp only [faultOf, fieldAt?_of_unknownsColumn h hcolumn, addUnknowns, bytesOf]
  cases r.column? column with
  | none => rfl
  | some bytes =>
    cases bytes with
    | nil =>
      refine ⟨m, ?_⟩
      simp only [merge_eq_map, mergeFields_nil]
      rfl
    | cons b rest =>
      obtain ⟨fault, hfail⟩ | ⟨g, -, hok⟩ :=
        merge_uniform p.schema.pool p.schema.index (b :: rest)
      · simp only [hfail]
        rfl
      · simp only [hok]
        exact ⟨_, rfl⟩

/-- A record fails with the first fault of a planned column, and is read if there is none. -/
theorem decidedBy_materialize (h : p.columns.Pairwise (· < ·)) (r : Record) :
    DecidedBy (p.columns.findSome? (p.faultOf r)) (p.materialize r) := by
  have hknown := decidedBy_foldlM (fun _ hmem m => decidedBy_addKnown (r := r) h m hmem) .empty
  have hunknowns : ∀ m, DecidedBy (p.unknownsColumn.toList.findSome? (p.faultOf r))
      (p.unknownsColumn.toList.foldlM (p.addUnknowns r) m) :=
    decidedBy_foldlM fun _ hmem m => decidedBy_addUnknowns h m (Option.mem_toList.1 hmem)
  have hmap : (p.known.map Prod.fst).findSome? (p.faultOf r) =
      p.known.findSome? fun known => p.faultOf r known.1 := List.findSome?_map
  rw [columns, List.findSome?_append, hmap, materialize]
  cases hfault : p.known.findSome? fun known => p.faultOf r known.1 with
  | some e =>
    rw [hfault] at hknown
    have hfail : p.known.foldlM (p.addKnown r) Message.empty = .error e := hknown
    rw [hfail]
    rfl
  | none =>
    rw [hfault] at hknown
    obtain ⟨m, hm⟩ := hknown
    rw [hm]
    exact hunknowns m

/-- Whether a record can be read is decided column by column. It is read exactly if no planned
column is at fault, taken by itself; otherwise it fails with the fault of the lowest planned column
that is. Columns that are not planned do not matter. -/
theorem materialize_columnwise {s : Schema} {numbers : List Nat} {stored : StoredFields}
    (hplan : ofNumbers s numbers stored = .ok p) (r : Record) :
    ((∃ m, p.materialize r = .ok m) ↔ ∀ c ∈ p.columns, p.faultOf r c = none) ∧
      (∀ e, p.materialize r = .error e ↔
        ∃ c ∈ p.columns, p.faultOf r c = some e ∧
          ∀ c' ∈ p.columns, c' < c → p.faultOf r c' = none) ∧
      ∀ r' : Record, (∀ c ∈ p.columns, r'.column? c = r.column? c) →
        (r'.width = r.width ∨ ∀ c ∈ p.columns, c < r.width) →
          p.materialize r' = p.materialize r := by
  have hascending := (isExact_of_ofNumbers hplan).ascending
  have hdecided := decidedBy_materialize hascending r
  refine ⟨?_, fun e => ?_, fun r' hcolumns hwidth => materialize_congr fun c hc => ?_⟩
  · rw [hdecided.exists_ok_iff, List.findSome?_eq_none_iff]
  · rw [hdecided.eq_error_iff, findSome?_eq_some_iff_of_ascending hascending]
  · rw [bytesOf, bytesOf, hcolumns c hc]
    cases hc' : r.column? c with
    | some bytes => rfl
    | none =>
      -- Only here the width is read.
      rcases hwidth with hwidth | hrange
      · rw [hwidth]
      · exact absurd (hrange c hc) (Nat.not_lt.2 (List.getElem?_eq_none_iff.1 hc'))

/-- Of two columns that are at fault, the first is the one that is told: the map's, which is cut
off, and not that of all other fields. -/
theorem materialize_columnwise_regular :
    ofNumbers Sample.regular [1, 3] ⟨[3, -1]⟩ = .ok regularPlan ∧
      regularPlan.faultOf ⟨[[5, 10, 1, 107, 16], [255]]⟩ 1 =
        some (.unknownFields 1 .invalidVarint) ∧
      regularPlan.materialize ⟨[[5, 10, 1, 107, 16], [255]]⟩ =
        .error (.decode "a.A.m" 0 (.truncated 5 4)) := by
  have hplan : ofNumbers Sample.regular [1, 3] ⟨[3, -1]⟩ = .ok regularPlan := rfl
  refine ⟨hplan, by cbv, ?_⟩
  refine ((materialize_columnwise hplan _).2.1 _).2 ⟨0, by decide, by cbv, fun c _ hlt => ?_⟩
  exact absurd hlt (Nat.not_lt_zero c)

end Plan

end ColumnarRecords
