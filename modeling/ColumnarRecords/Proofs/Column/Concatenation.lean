import ColumnarRecords.Proofs.Column.Separation
import ColumnarRecords.Proofs.Descriptor.Loading

/-!
# Columns of lists and maps concatenate

The column of a repeated field or of a map can be cut between any two of its values: decoding the
first bytes and then the others into what they left comes to the same as decoding all of them, with
the same message or the same fault (`Column.decodeField_append`). Of the entries of a map that have
one key the last wins, and one that the map held before gives way (`Column.lookup_insertAll`).

The values are told apart whatever follows them (`Column.Separates.readAll_append`), and putting in
the values of both parts is putting in those of the first and then those of the second
(`Column.Appends`).
-/

namespace ColumnarRecords

open Descriptor

namespace MapKey

/-- A lookup in a map, by its first entry. -/
theorem lookup_cons (key k : MapKey) (v : Value) (rest : List (MapKey × Value)) :
    ((k, v) :: rest).lookup key = if key = k then some v else rest.lookup key := by
  rw [List.lookup_cons]
  by_cases h : key = k
  · simp [h]
  · rw [beq_eq_false_iff_ne.2 h, if_neg h]

/-- A lookup after an entry was put in. -/
theorem lookup_insert (key k : MapKey) (v : Value) (map : List (MapKey × Value)) :
    (insert k v map).lookup key = if key = k then some v else map.lookup key := by
  induction map with
  | nil => rw [insert, lookup_cons]
  | cons e rest ih =>
    obtain ⟨k', w⟩ := e
    rw [insert]
    split
    · rename_i hsame
      subst hsame
      simp only [lookup_cons]
      split <;> rfl
    · split
      · rw [lookup_cons]
      · rw [lookup_cons, lookup_cons, ih]
        split
        · rename_i hne _ hkey
          rw [if_neg fun hk => hne (hkey.symm.trans hk)]
        · rfl

end MapKey

namespace Column

/-- A lookup after entries were put in: the last entry of the key wins. -/
theorem lookup_insertAll (key : MapKey) (entries map : List (MapKey × Value)) :
    (insertAll entries map).lookup key =
      (entries.reverse.lookup key).or (map.lookup key) := by
  induction entries generalizing map with
  | nil => rfl
  | cons e rest ih =>
    obtain ⟨k, v⟩ := e
    have hstep : insertAll ((k, v) :: rest) map = insertAll rest (MapKey.insert k v map) := rfl
    rw [hstep, ih, MapKey.lookup_insert, List.reverse_cons, List.lookup_append, Option.or_assoc,
      MapKey.lookup_cons]
    by_cases h : key = k <;> simp [h]

section Readings

variable {α : Type} {read : Reader α} {put : Message → List α → Message}

/-- Putting in values is putting in the first and then the others. -/
def Appends (put : Message → List α → Message) : Prop :=
  ∀ m values others, put (put m values) others = put m (values ++ others)

/-- If some bytes can be decoded into a message, then decoding these bytes with others after them is
decoding the others into what they left. -/
theorem map_readAll_append (h : Separates read) (hput : Appends put) {bytes : List UInt8}
    {m m₁ : Message} (hbytes : (readAll read bytes).map (put m) = .ok m₁) (more : List UInt8) :
    (readAll read (bytes ++ more)).map (put m) = (readAll read more).map (put m₁) := by
  obtain ⟨values, hvalues, rfl⟩ := map_eq_ok.1 hbytes
  rw [h.readAll_append hvalues]
  cases readAll read more with
  | error f => rfl
  | ok others => exact congrArg Except.ok (hput m values others).symm

end Readings

/-- Values that are assigned to a list one after another are appended. -/
theorem appends_list (t : MessageType) (f : Field) :
    Appends fun m values => m.assign t f (.list (listOf m f ++ values)) := by
  intro m values others
  simp only [Message.assign_assign, listOf_assign, List.append_assoc]

/-- Entries that are put into a map one after another are appended. -/
theorem appends_map (t : MessageType) (f : Field) :
    Appends fun m entries => m.assign t f (.map (insertAll entries (mapOf m f))) := by
  intro m entries others
  simp only [Message.assign_assign, mapOf_assign, insertAll, List.foldl_append]

/-- Decoding what is cut in two is decoding one part after the other. -/
theorem decodeField_two {p : Pool} {t : MessageType} {f : Field} (hf : f.arity ≠ .single)
    {bytes : List UInt8} {m m₁ : Message} (h : decodeField p t f bytes m = .ok m₁)
    (more : List UInt8) :
    decodeField p t f (bytes ++ more) m = decodeField p t f more m₁ := by
  cases harity : f.arity with
  | single => exact absurd harity hf
  | list =>
    by_cases hgroup : f.isGroup = true
    · -- No bytes at all are a list of groups.
      simp [decodeField_eq, readField, harity, hgroup, Except.map] at h
    · have hlist : f.isGroup = false := by simpa using hgroup
      rw [decodeField_of_list harity hlist] at h ⊢
      rw [decodeField_of_list harity hlist]
      exact map_readAll_append (separates_readValue p f.kind) (appends_list t f) h more
  | map entry =>
    rw [decodeField_of_map harity] at h ⊢
    rw [decodeField_of_map harity]
    exact map_readAll_append (separates_readEntry p entry) (appends_map t f) h more

/-- Decoding what is cut into pieces is decoding one piece after the other. -/
theorem decodeField_pieces {p : Pool} {t : MessageType} {f : Field} (hf : f.arity ≠ .single)
    {pieces : List (List UInt8)} {m m₁ : Message} (h : decodeValues p t f pieces m = .ok m₁)
    (last : List UInt8) :
    decodeField p t f (pieces.flatten ++ last) m = decodeField p t f last m₁ := by
  induction pieces generalizing m with
  | nil =>
    obtain rfl := Except.ok.inj h
    rfl
  | cons piece rest ih =>
    rw [decodeValues_cons] at h
    obtain ⟨m₂, hpiece, hrest⟩ := bind_eq_ok.1 h
    rw [List.flatten_cons, List.append_assoc, decodeField_two hf hpiece]
    exact ih hrest

/-- How a repeated field or a map is cut into pieces does not matter. -/
theorem decodeField_append {p : Pool} {t : MessageType} {f : Field} (hf : f.arity ≠ .single) :
    (∀ (a b : List UInt8) (m m₁ : Message), decodeField p t f a m = .ok m₁ →
        decodeField p t f (a ++ b) m = decodeField p t f b m₁) ∧
      (∀ (pieces : List (List UInt8)) (last : List UInt8) (m m₁ : Message),
        decodeValues p t f pieces m = .ok m₁ →
          decodeField p t f (pieces.flatten ++ last) m = decodeField p t f last m₁) ∧
      ∀ entry, f.arity = .map entry → ∀ (bytes : List UInt8) (m m₁ : Message),
        decodeField p t f bytes m = .ok m₁ →
          ∃ entries, readAll (readEntry p entry) bytes = .ok entries ∧
            ∀ key, (mapOf m₁ f).lookup key =
              (entries.reverse.lookup key).or ((mapOf m f).lookup key) := by
  refine ⟨fun a b m m₁ h => decodeField_two hf h b,
    fun pieces last m m₁ h => decodeField_pieces hf h last, ?_⟩
  intro entry harity bytes m m₁ h
  rw [decodeField_of_map harity] at h
  obtain ⟨entries, hentries, rfl⟩ := map_eq_ok.1 h
  refine ⟨entries, hentries, fun key => ?_⟩
  rw [mapOf_assign, lookup_insertAll]

/-- The repeated field of the regular message. -/
def regularNumbers : Field :=
  { Sample.field "a.A." "r" 2 (.scalar .int32) .list (.i32 0) with isPacked := true }

/-- The map of the regular message. -/
def regularMap : Field :=
  Sample.field "a.A." "m" 3 (.message 1) (.map 1) (.message .empty)

/-- A regular message that holds a map of one entry. -/
def regularMessage (n : Int32) : Message := ⟨[(3, .value (.map [(.string "k", .i32 n)]))]⟩

/-- A map whose column is cut between two entries of one key, which it holds already: the last of
the three values stays. If the second piece is cut off, the fault is that of this piece. -/
theorem decodeField_append_regular :
    regularMap.arity ≠ .single ∧
      decodeField Sample.regular.pool Sample.regular.type regularMap
        ([5, 10, 1, 107, 16, 7] ++ [5, 10, 1, 107, 16, 9]) (regularMessage 5) =
          .ok (regularMessage 9) ∧
      decodeField Sample.regular.pool Sample.regular.type regularMap
        ([5, 10, 1, 107, 16, 7] ++ [5, 10, 1]) (regularMessage 5) = .error (.truncated 5 2) := by
  have hmap : regularMap.arity ≠ .single := by simp [regularMap, Sample.field]
  have hfirst : decodeField Sample.regular.pool Sample.regular.type regularMap
      [5, 10, 1, 107, 16, 7] (regularMessage 5) = .ok (regularMessage 7) := by cbv
  refine ⟨hmap, ?_, ?_⟩
  · rw [(decodeField_append hmap).1 _ _ _ _ hfirst]
    cbv
  · rw [(decodeField_append hmap).1 _ _ _ _ hfirst]
    cbv

end Column

end ColumnarRecords
