import Mathlib.Logic.Equiv.Basic
import ColumnarRecords.Proofs.Projection.Columnwise
import ColumnarRecords.Proofs.Projection.Retagged

/-!
# The order of columns does not matter

A file whose columns stand in other places gives the same messages. Planning finds the same fields
in their new places, and reads them in another order (`Plan.perm_knownOf`); reading one known column
commutes with reading another (`Plan.addKnown_comm`), as their fields are different and of those
that share a oneof at most one is there; so the message that the column of all other fields is
merged into is the same (`Plan.materialize_rearranged`). -/

namespace ColumnarRecords

open Descriptor Wire Message

/-- Every column of a file is at another place of another file, except that the column of all other
fields is at the same place. -/
structure StoredFields.Rearranges (stored stored' : StoredFields) (place : Equiv.Perm Nat) :
    Prop where
  /-- The entries move to their places. -/
  ids : ∀ c, stored'.ids[place c]? = stored.ids[c]?
  /-- The column of all other fields stays. -/
  unknowns : ∀ c, stored.unknownsColumn? = some c → place c = c

/-- What a record holds in the columns of a file is what another one holds in the places to which
they move. -/
def Record.Rearranges (r r' : Record) (place : Equiv.Perm Nat) : Prop :=
  ∀ c, r'.column? (place c) = r.column? c

/-- A fold is possible if it is so step by step. -/
theorem toOption_foldlM {α β ε : Type} {step : β → α → Except ε β} {l : List α} {b : β} :
    (l.foldlM step b).toOption = l.foldlM (fun b a => (step b a).toOption) b := by
  induction l generalizing b with
  | nil => rfl
  | cons a rest ih =>
    rw [List.foldlM_cons, List.foldlM_cons]
    cases step b a with
    | error e => rfl
    | ok b' => exact ih

/-- Steps that commute on all states that they can reach are made in any order. -/
theorem foldlM_perm {α β : Type} {step : β → α → Option β} {I : β → Prop}
    (hstep : ∀ b a b', I b → step b a = some b' → I b') {l l' : List α} (h : l.Perm l')
    (hcomm : ∀ x ∈ l, ∀ y ∈ l, ∀ b, I b →
      ((step b x).bind fun c => step c y) = (step b y).bind fun c => step c x)
    {b : β} (hb : I b) : l.foldlM step b = l'.foldlM step b := by
  induction h generalizing b with
  | nil => rfl
  | cons a hrest ih =>
    rw [List.foldlM_cons, List.foldlM_cons]
    cases ha : step b a with
    | none => rfl
    | some b' =>
      exact ih (fun x hx y hy => hcomm x (.tail _ hx) y (.tail _ hy)) (hstep b a b' hb ha)
  | swap a a' rest =>
    -- The two steps are made one after the other, and then the others as before.
    have hpair := hcomm a' (.head _) a (.tail _ (.head _)) b hb
    have hbind : ∀ x y, ((y :: x :: rest).foldlM step b) =
        ((step b y).bind fun c => step c x).bind fun c => rest.foldlM step c := by
      intro x y
      rw [List.foldlM_cons]
      cases step b y with
      | none => rfl
      | some c => rfl
    rw [hbind, hbind, hpair]
  | trans h h' ih ih' =>
    refine (ih hcomm hb).trans (ih' (fun x hx y hy => ?_) hb)
    exact hcomm x (h.mem_iff.2 hx) y (h.mem_iff.2 hy)

/-- A list without repetition whose members move to other places keeps its members. -/
theorem perm_of_getElem? {α : Type} {l l' : List α} (hnodup : l.Nodup) {place : Equiv.Perm Nat}
    (h : ∀ c, l'[place c]? = l[c]?) : l'.Perm l := by
  have hback : ∀ i : Nat, l[place.symm i]? = l'[i]? := by
    intro i
    rw [← h, place.apply_symm_apply]
  have hnodup' : l'.Nodup := by
    refine List.pairwise_iff_getElem.2 fun i j hi hj hlt heq => ?_
    have hsome : l[place.symm i]? = some l'[i] := (hback i).trans (List.getElem?_eq_getElem hi)
    have hsame : l[place.symm i]? = l[place.symm j]? := by
      rw [hback, hback, List.getElem?_eq_getElem hi, List.getElem?_eq_getElem hj, heq]
    have hlt' := (List.getElem?_eq_some_iff.1 hsome).1
    have hij : i = j := place.symm.injective ((List.getElem?_inj hlt' hnodup).1 hsame)
    omega
  refine (List.perm_ext_iff_of_nodup hnodup' hnodup).2 fun a => ?_
  rw [List.mem_iff_getElem?, List.mem_iff_getElem?]
  constructor
  · rintro ⟨i, hi⟩
    exact ⟨place.symm i, (hback i).trans hi⟩
  · rintro ⟨c, hc⟩
    exact ⟨place c, (h c).trans hc⟩

namespace StoredFields

/-- Of distinct entries that of all other fields is the last one, if it is there. -/
theorem Distinct.getLast?_of_mem {stored : StoredFields} (h : stored.Distinct)
    (hmem : unknownsId ∈ stored.ids) : stored.ids.getLast? = some unknownsId := by
  obtain ⟨ids, hids | hids, -, hpositive⟩ := h
  · rw [hids] at hmem
    exact absurd (hpositive _ hmem) (by decide)
  · rw [hids, List.getLast?_concat]

namespace Rearranges

variable {stored stored' : StoredFields} {place : Equiv.Perm Nat} (hstored : stored.Distinct)
  (h : stored.Rearranges stored' place)
include hstored h

/-- The entries are the same but for their order. -/
theorem perm_ids : stored'.ids.Perm stored.ids := perm_of_getElem? hstored.nodup h.ids

/-- The same fields have columns. -/
theorem holds_iff (n : Nat) : stored'.Holds n ↔ stored.Holds n := by
  unfold Holds
  simp only [(h.perm_ids hstored).mem_iff]

/-- The column of all other fields is the same. -/
theorem unknownsColumn?_eq : stored'.unknownsColumn? = stored.unknownsColumn? := by
  have hperm := h.perm_ids hstored
  cases hcolumn : stored.unknownsColumn? with
  | none =>
    rw [unknownsColumn?_eq_none_iff] at hcolumn ⊢
    intro hlast
    have hmem : unknownsId ∈ stored.ids := hperm.mem_iff.1 (List.mem_of_getLast? hlast)
    exact hcolumn (hstored.getLast?_of_mem hmem)
  | some c =>
    have hget := getElem?_of_unknownsColumn? hcolumn
    rw [← h.ids, h.unknowns c hcolumn] at hget
    obtain ⟨-, hcount⟩ := (unknownsColumn?_eq_some_iff _ _).1 hcolumn
    have hcount' : c + 1 = stored'.columnCount := hcount.trans hperm.length_eq.symm
    refine (unknownsColumn?_eq_some_iff _ _).2 ⟨?_, hcount'⟩
    have hplace : stored'.ids.length - 1 = c := by
      unfold columnCount at hcount'
      omega
    rw [List.getLast?_eq_getElem?, hplace, hget]

end Rearranges

end StoredFields

namespace Message

/-- Fields of which neither clears the other are assigned in any order. -/
theorem assign_comm {t : MessageType} {f g : Field} (hne : f.number ≠ g.number)
    (hf : f.number ∉ t.siblings g) (hg : g.number ∉ t.siblings f) (v w : Value) {m : Message}
    (hm : m.Ascending) : (m.assign t f v).assign t g w = (m.assign t g w).assign t f v := by
  refine Ascending.ext (ascending_assign (ascending_assign hm))
    (ascending_assign (ascending_assign hm)) fun n e => ?_
  rw [find?_assign, find?_assign, find?_assign, find?_assign]
  by_cases hnf : n = f.number
  · subst hnf
    rw [if_neg hne, if_neg hf, if_pos rfl, if_pos rfl]
  by_cases hng : n = g.number
  · subst hng
    rw [if_pos rfl, if_neg hne.symm, if_neg hg, if_pos rfl]
  -- Any other number is cleared by both, by one of them or by neither, in either order.
  rw [if_neg hnf, if_neg hng, if_neg hnf, if_neg hng]
  by_cases hsf : n ∈ t.siblings f <;> by_cases hsg : n ∈ t.siblings g <;> simp [hsf, hsg]

end Message

namespace Plan

variable {p : Plan} {r : Record}

/-- A known column keeps a message in order. -/
theorem ascending_addKnown {known : Nat × Field} {m m' : Message} (hm : m.Ascending)
    (h : p.addKnown r m known = .ok m') : m'.Ascending := by
  obtain ⟨e, hfail⟩ | ⟨-, hok⟩ | ⟨-, change, hok⟩ := addKnown_cases p r known
  · rw [hfail] at h
    cases h
  · rw [hok] at h
    exact Except.ok.inj h ▸ hm
  · rw [hok] at h
    exact Except.ok.inj h ▸ ascending_assign hm

/-- Two known columns of different fields are read in any order, if not both hold a member of the
same oneof. -/
theorem addKnown_comm {x y : Nat × Field} (hne : x.2.number ≠ y.2.number)
    (hxy : y.2.number ∈ p.schema.type.siblings x.2 → ¬(r.IsFilled x.1 ∧ r.IsFilled y.1))
    (hyx : x.2.number ∈ p.schema.type.siblings y.2 → ¬(r.IsFilled x.1 ∧ r.IsFilled y.1))
    {m : Message} (hm : m.Ascending) :
    ((p.addKnown r m x).toOption.bind fun m => (p.addKnown r m y).toOption) =
      (p.addKnown r m y).toOption.bind fun m => (p.addKnown r m x).toOption := by
  obtain ⟨e, hx⟩ | ⟨-, hx⟩ | ⟨hfilled, change, hx⟩ := addKnown_cases p r x
  · -- The first column fails before and after the second.
    simp only [hx]
    cases p.addKnown r m y <;> rfl
  · simp only [hx]
    show (p.addKnown r m y).toOption = _
    cases p.addKnown r m y <;> rfl
  obtain ⟨e, hy⟩ | ⟨-, hy⟩ | ⟨hfilled', change', hy⟩ := addKnown_cases p r y
  · simp only [hx, hy]
    rfl
  · simp only [hx, hy]
    rfl
  · have hkeep : y.2.number ∉ p.schema.type.siblings x.2 := fun h => hxy h ⟨hfilled, hfilled'⟩
    have hkeep' : x.2.number ∉ p.schema.type.siblings y.2 := fun h => hyx h ⟨hfilled, hfilled'⟩
    simp only [hx, hy]
    show some _ = some _
    rw [get_assign_of_ne hne.symm hkeep, get_assign_of_ne hne hkeep',
      assign_comm hne hkeep' hkeep _ _ hm]

section Layouts

variable {s : Schema} {stored stored' : StoredFields} {place : Equiv.Perm Nat}
  (h : stored.Rearranges stored' place) (numbers : List Nat)
include h

/-- The same fields are missing. -/
theorem missingOf_eq_of_rearranges (hstored : stored.Distinct) :
    missingOf s numbers stored' = missingOf s numbers stored := by
  unfold missingOf
  simp only [h.holds_iff hstored]

/-- The known columns are those of the other file in their places. -/
theorem mem_knownOf_of_rearranges {known : Nat × Field} :
    (place known.1, known.2) ∈ knownOf s numbers stored' ↔ known ∈ knownOf s numbers stored := by
  obtain ⟨column, f⟩ := known
  simp only [mem_knownOf, h.ids]

/-- The known columns of a file, taken back to the places that they have in the other one, are those
of the other file in some order. -/
theorem perm_knownOf :
    ((knownOf s numbers stored').map fun known => (place.symm known.1, known.2)).Perm
      (knownOf s numbers stored) := by
  have hnodup : ∀ stored : StoredFields, (knownOf s numbers stored).Nodup := fun stored =>
    List.Nodup.of_map Prod.fst ((pairwise_knownOf s numbers stored).imp Nat.ne_of_lt)
  have hinjective : Function.Injective
      fun known : Nat × Field => (place.symm known.1, known.2) := by
    rintro ⟨c, f⟩ ⟨c', f'⟩ heq
    obtain ⟨hc, hf⟩ := Prod.mk.inj heq
    exact Prod.ext (place.symm.injective hc) hf
  refine (List.perm_ext_iff_of_nodup ((hnodup stored').map hinjective) (hnodup stored)).2 ?_
  intro known
  rw [← mem_knownOf_of_rearranges h numbers, List.mem_map]
  constructor
  · rintro ⟨known', hmem, rfl⟩
    rwa [place.apply_symm_apply]
  · intro hmem
    exact ⟨_, hmem, by rw [place.symm_apply_apply]⟩

end Layouts

/-- Of the known columns whose fields share a oneof at most one holds bytes. -/
def OneOfEach (s : Schema) (numbers : List Nat) (stored : StoredFields) (r : Record) : Prop :=
  ∀ x ∈ knownOf s numbers stored, ∀ y ∈ knownOf s numbers stored,
    y.2.number ∈ s.type.siblings x.2 → ¬(r.IsFilled x.1 ∧ r.IsFilled y.1)

/-- A record is read along a plan step by step. -/
theorem toOption_materialize (p : Plan) (r : Record) :
    (p.materialize r).toOption =
      (p.known.foldlM (fun m known => (p.addKnown r m known).toOption) Message.empty).bind fun m =>
        p.unknownsColumn.toList.foldlM (fun m column => (p.addUnknowns r m column).toOption) m := by
  rw [← toOption_foldlM]
  unfold materialize
  cases p.known.foldlM (p.addKnown r) Message.empty with
  | error e => rfl
  | ok m => exact toOption_foldlM

section Records

variable {s : Schema} {stored stored' : StoredFields} {place : Equiv.Perm Nat}
  {numbers : List Nat} {r r' : Record} (hr : r.Rearranges r' place) {p p' : Plan}
  (hschema : p'.schema = p.schema)
include hr hschema

/-- A known column of a rearranged record is read as the column at its old place. -/
theorem toOption_addKnown_rearranged (m : Message) (known : Nat × Field) :
    (p'.addKnown r' m known).toOption =
      (p.addKnown r m (place.symm known.1, known.2)).toOption := by
  have hcolumn : r'.column? known.1 = r.column? (place.symm known.1) := by
    rw [← hr, place.apply_symm_apply]
  simp only [addKnown, bytesOf, hcolumn, hschema]
  cases r.column? (place.symm known.1) with
  | none => rfl
  | some bytes =>
    by_cases hempty : bytes = []
    · simp only [if_pos hempty]
    · simp only [if_neg hempty]
      cases Column.decodeField p.schema.pool p.schema.type known.2 bytes m <;> rfl

/-- A column of all other fields that stays in its place is read as before. -/
theorem toOption_addUnknowns_rearranged (m : Message) {column : Nat}
    (hstays : place column = column) :
    (p'.addUnknowns r' m column).toOption = (p.addUnknowns r m column).toOption := by
  have hcolumn : r'.column? column = r.column? column := by
    rw [← hr column, hstays]
  simp only [addUnknowns, bytesOf, hcolumn, hschema]
  cases r.column? column with
  | none => rfl
  | some bytes => rfl

/-- The known columns of a rearranged record are read to the same message. -/
theorem foldlM_addKnown_rearranged (hstored : stored.Distinct)
    (h : stored.Rearranges stored' place) (hone : OneOfEach p.schema numbers stored r) :
    (knownOf p.schema numbers stored').foldlM
        (fun m known => (p'.addKnown r' m known).toOption) .empty =
      (knownOf p.schema numbers stored).foldlM (fun m known => (p.addKnown r m known).toOption)
        Message.empty := by
  have hperm := perm_knownOf (s := p.schema) h numbers
  have hsymm : Std.Symm fun x y : Nat × Field => x.2.number ≠ y.2.number := ⟨fun _ _ => Ne.symm⟩
  have hdistinct : ∀ x ∈ knownOf p.schema numbers stored, ∀ y ∈ knownOf p.schema numbers stored,
      x ≠ y → x.2.number ≠ y.2.number := fun x hx y hy =>
    (pairwise_number_knownOf hstored p.schema numbers).forall hx hy
  -- The columns are read at their old places, in the order of the new ones.
  have hback : (fun m known => (p'.addKnown r' m known).toOption) = fun m known =>
      (p.addKnown r m (place.symm known.1, known.2)).toOption := by
    funext m known
    exact toOption_addKnown_rearranged hr hschema m known
  rw [hback, ← List.foldlM_map (f := fun known : Nat × Field => (place.symm known.1, known.2))
    (g := fun m known => (p.addKnown r m known).toOption)]
  refine foldlM_perm (I := Ascending) (fun m x m' hm hx => ?_) hperm (fun x hx y hy m hm => ?_)
    List.Pairwise.nil
  · cases hx' : p.addKnown r m x with
    | error e =>
      rw [hx'] at hx
      cases hx
    | ok m₁ =>
      rw [hx'] at hx
      obtain rfl := Option.some.inj hx
      exact ascending_addKnown hm hx'
  · by_cases hxy : x = y
    · rw [hxy]
    rw [hperm.mem_iff] at hx hy
    exact addKnown_comm (hdistinct x hx y hy hxy) (hone x hx y hy)
      (fun hmem hfilled => hone y hy x hx hmem hfilled.symm) hm

/-- Plans of the two files that read the same fields give the same message of the two records. -/
theorem toOption_materialize_rearranged (hstored : stored.Distinct)
    (h : stored.Rearranges stored' place) (hone : OneOfEach p.schema numbers stored r)
    (hknown : p.known = knownOf p.schema numbers stored)
    (hknown' : p'.known = knownOf p.schema numbers stored')
    (hcolumn : p'.unknownsColumn = p.unknownsColumn)
    (hstays : ∀ c, p.unknownsColumn = some c → place c = c) :
    (p.materialize r).toOption = (p'.materialize r').toOption := by
  rw [toOption_materialize, toOption_materialize, hknown, hknown', hcolumn,
    foldlM_addKnown_rearranged hr hschema hstored h hone]
  congr 1
  funext m
  cases hunknowns : p.unknownsColumn with
  | none => rfl
  | some column =>
    simp only [Option.toList_some, List.foldlM_cons,
      toOption_addUnknowns_rearranged hr hschema m (hstays column hunknowns)]
    rfl

end Records

/-- Whether a file can be planned for does not depend on the places of its columns, nor does what
planning fails with; and along the two plans a record and the rearranged record give the same
message, or none. -/
theorem materialize_rearranged {s : Schema} {stored stored' : StoredFields}
    {place : Equiv.Perm Nat} (hstored : stored.Distinct) (h : stored.Rearranges stored' place)
    {numbers : List Nat} {r r' : Record} (hr : r.Rearranges r' place)
    (hone : OneOfEach s numbers stored r) :
    match ofNumbers s numbers stored, ofNumbers s numbers stored' with
    | .ok p, .ok p' => (p.materialize r).toOption = (p'.materialize r').toOption
    | .error e, .error e' => e = e'
    | _, _ => False := by
  have hmissing := missingOf_eq_of_rearranges (s := s) h numbers hstored
  have hunknowns := h.unknownsColumn?_eq hstored
  have hcount : stored'.columnCount = stored.columnCount := (h.perm_ids hstored).length_eq
  rw [ofNumbers_eq, ofNumbers_eq, hmissing, hunknowns, hcount]
  by_cases hnil : missingOf s numbers stored = []
  · rw [if_pos hnil, if_pos hnil]
    refine toOption_materialize_rearranged hr rfl hstored h hone rfl rfl rfl fun c hc => ?_
    cases hc
  · rw [if_neg hnil, if_neg hnil]
    cases hcolumn : stored.unknownsColumn? with
    | none => rfl
    | some column =>
      refine toOption_materialize_rearranged hr rfl hstored h hone rfl rfl rfl fun c hc => ?_
      obtain rfl := Option.some.inj hc
      exact h.unknowns _ hcolumn

/-- Exchanging the first two columns of three rearranges a file and its records. -/
theorem getElem?_swap {α : Type} (a b c : α) (i : Nat) :
    [b, a, c][Equiv.swap 0 1 i]? = [a, b, c][i]? := by
  match i with
  | 0 => rfl
  | 1 => rfl
  | i + 2 => rw [Equiv.swap_apply_of_ne_of_ne (by omega) (by omega)]; rfl

/-- A map, a text and numbers are read from two dedicated columns and the column of all other fields
as they are when the dedicated columns stand the other way round. -/
theorem materialize_rearranged_regular :
    ∃ p', ofNumbers Sample.regular [1, 2, 3] ⟨[1, 3, -1]⟩ = .ok p' ∧
      (p'.materialize ⟨[[1, 120], [5, 10, 1, 107, 16, 5], [18, 2, 3, 4]]⟩).toOption =
        some ⟨[(1, .value (.string "x")), (2, .value (.list [.i32 3, .i32 4])),
          (3, .value (.map [(.string "k", .i32 5)]))]⟩ := by
  have hplace : (⟨[3, 1, -1]⟩ : StoredFields).Rearranges ⟨[1, 3, -1]⟩ (Equiv.swap 0 1) := by
    refine ⟨getElem?_swap 3 1 (-1), fun c hc => ?_⟩
    obtain rfl : 2 = c := Option.some.inj hc
    rfl
  have hrecord : (⟨[[5, 10, 1, 107, 16, 5], [1, 120], [18, 2, 3, 4]]⟩ : Record).Rearranges
      ⟨[[1, 120], [5, 10, 1, 107, 16, 5], [18, 2, 3, 4]]⟩ (Equiv.swap 0 1) :=
    getElem?_swap _ _ _
  -- No field of the type is in a oneof, so none clears another.
  have hone : OneOfEach Sample.regular [1, 2, 3] ⟨[3, 1, -1]⟩
      ⟨[[5, 10, 1, 107, 16, 5], [1, 120], [18, 2, 3, 4]]⟩ := by
    intro x hx y _ hmem
    rcases List.mem_cons.1 hx with rfl | hx
    · exact absurd hmem List.not_mem_nil
    · obtain rfl := List.mem_singleton.1 hx
      exact absurd hmem List.not_mem_nil
  have hsame := materialize_rearranged ⟨[3, 1], .inr rfl, by decide, by simp⟩ hplace hrecord hone
  refine ⟨_, rfl, hsame.symm.trans ?_⟩
  cbv

end Plan

end ColumnarRecords
