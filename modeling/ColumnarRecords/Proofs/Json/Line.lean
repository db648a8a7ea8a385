import ColumnarRecords.Json.Message
import ColumnarRecords.Proofs.Text.Numeral

/-!
# Messages on a line

The text of a message in JSON is on one line, whatever the message holds: strings have their line
breaks escaped (`Json.isLine_string`), everything else that is text of a message stands in strings
or is a number or a mark. So `Json.onLine_ofMessage` needs no assumption on the message or its
types.
-/

namespace ColumnarRecords.Json

open Descriptor Floating

/-- A text is on one line. -/
def IsLine (s : String) : Prop := '\n' ∉ s.toList

instance (s : String) : Decidable (IsLine s) := inferInstanceAs (Decidable ('\n' ∉ s.toList))

/-- The text of pieces is on one line. -/
def OnLine (pieces : List Piece) : Prop := ∀ s, .text s ∈ pieces → IsLine s

/-! ## Texts -/

/-- Characters on one line are a text on one line. -/
theorem isLine_ofList {cs : List Char} (h : '\n' ∉ cs) : IsLine (String.ofList cs) := by
  rw [IsLine, String.toList_ofList]
  exact h

/-- Texts on one line are on one line together. -/
theorem IsLine.append {s t : String} (hs : IsLine s) (ht : IsLine t) : IsLine (s ++ t) := by
  rw [IsLine, String.toList_append, List.mem_append]
  exact not_or_intro hs ht

/-- A hexadecimal digit breaks no line. -/
theorem ne_digitChar : ∀ n < 16, '\n' ≠ Nat.digitChar n := by decide

/-- A character of a string breaks no line. -/
theorem notMem_stringChar (c : Char) : '\n' ∉ stringChar c := by
  unfold stringChar
  split_ifs with hquote hslash hback hfeed hnewline hreturn htab hcontrol
  iterate 7 exact of_decide_eq_true rfl
  · have hhigh := ne_digitChar (c.toNat / 16) (by omega)
    have hlow := ne_digitChar (c.toNat % 16) (Nat.mod_lt _ (by decide))
    simp only [List.mem_cons, List.not_mem_nil, hhigh, hlow, or_false]
    decide
  · exact fun h => hnewline (List.mem_singleton.1 h).symm

/-- A string is on one line. -/
theorem isLine_string (s : String) : IsLine (string s) := by
  refine isLine_ofList ?_
  simp only [List.cons_append, List.mem_cons, List.mem_append, List.mem_flatMap, List.not_mem_nil,
    or_false, not_or, not_exists, not_and]
  exact ⟨by decide, fun c _ => notMem_stringChar c, by decide⟩

/-- Digits are on one line. -/
theorem notMem_toDigits (n : Nat) : '\n' ∉ Nat.toDigits 10 n :=
  fun h => absurd (isDigit_of_mem_toDigits h) (by decide)

/-- A number that is not negative is on one line. -/
theorem isLine_toString_nat (n : Nat) : IsLine (toString n) := isLine_ofList (notMem_toDigits n)

/-- A whole number is on one line. -/
theorem isLine_toString_int (n : Int) : IsLine (toString n) := by
  cases n with
  | ofNat n => exact isLine_toString_nat n
  | negSucc n => exact IsLine.append (s := "-") (by decide) (isLine_toString_nat (n + 1))

/-- Digits in positional form are on one line. -/
theorem notMem_positionalText (keepsPoint : Bool) {digits : List Char} (h : '\n' ∉ digits)
    (leading : Int) : '\n' ∉ Layout.positionalText keepsPoint digits leading := by
  have hzeros : ∀ n, '\n' ∉ List.replicate n '0' :=
    fun n hmem => absurd (List.eq_of_mem_replicate hmem) (by decide)
  have htake : ∀ n, '\n' ∉ digits.take n := fun n hmem => h (List.mem_of_mem_take hmem)
  have hdrop : ∀ n, '\n' ∉ digits.drop n := fun n hmem => h (List.mem_of_mem_drop hmem)
  simp only [Layout.positionalText]
  split_ifs <;> simp [h, hzeros, htake, hdrop]

/-- Digits in exponential form are on one line. -/
theorem notMem_exponentialText {digits : List Char} (h : '\n' ∉ digits) (leading : Int) :
    '\n' ∉ Layout.exponentialText digits leading := by
  have hexponent := notMem_toDigits leading.natAbs
  unfold Layout.exponentialText
  match digits with
  | [] => split_ifs <;> simp [hexponent]
  | [d] => split_ifs <;> simp_all
  | d :: e :: rest => split_ifs <;> simp_all

/-- The digits of a decimal, laid out in any way, are on one line. -/
theorem notMem_decimalText (l : Layout) (d : Decimal) : '\n' ∉ l.decimalText d := by
  have hdigits := notMem_toDigits d.digits
  simp only [Layout.decimalText]
  split
  · exact notMem_positionalText _ hdigits _
  · split_ifs
    · exact notMem_positionalText _ hdigits _
    · exact notMem_exponentialText hdigits _

/-- The text of a finite number is on one line. -/
theorem isLine_finite (layout : Layout) (format : Format) (negative : Bool) (significand : Nat)
    (exponent : Int) : IsLine (layout.text format (.finite negative significand exponent)) := by
  refine IsLine.append ?_ (isLine_ofList (notMem_decimalText _ _))
  split <;> decide

/-- The text of a number is on one line. -/
theorem isLine_number (layout : Layout) (format : Format) (bits : Nat) :
    IsLine (number layout format bits) := by
  unfold number
  split
  · exact isLine_finite _ _ _ _ _
  · exact isLine_string _

/-- The text of a number that is finite is on one line. -/
theorem isLine_of_finite? {layout : Layout} {format : Format} {bits : Nat} {s : String}
    (h : finite? layout format bits = some s) : IsLine s := by
  unfold finite? at h
  split at h
  · obtain rfl := Option.some.inj h
    exact isLine_finite _ _ _ _ _
  · cases h

/-- The text of a wrapped plain value is on one line. -/
theorem isLine_wrapperText (type : String) (fields : List (Nat × Wire.Layout.Node)) :
    IsLine (Special.wrapperText type fields) := by
  have hnumber : ∀ layout format bits, IsLine (Special.numberText layout format bits) := by
    intro layout format bits
    unfold Special.numberText
    cases h : finite? layout format bits with
    | none => exact of_decide_eq_true rfl
    | some s => exact isLine_of_finite? h
  simp only [Special.wrapperText]
  split
  · exact hnumber _ _ _
  · exact hnumber _ _ _
  · exact isLine_string _
  · exact isLine_string _
  · exact isLine_toString_int _
  · exact isLine_toString_nat _
  · split <;> decide
  · exact isLine_string _
  · exact isLine_string _

/-- The text of a plain value is on one line. -/
theorem isLine_plainText (p : Pool) (kind : Kind) (v : Value) : IsLine (plainText p kind v) := by
  have hnull : IsLine "null" := by decide
  cases v with
  | bool b =>
    simp only [plainText]
    split_ifs <;> decide
  | i32 n => exact isLine_toString_int _
  | i64 n => exact isLine_string _
  | u32 n => exact isLine_toString_nat _
  | u64 n => exact isLine_string _
  | f32 bits => exact isLine_number _ _ _
  | f64 bits => exact isLine_number _ _ _
  | string s => exact isLine_string _
  | bytes content => exact isLine_string _
  | enum n =>
    simp only [plainText]
    split
    · split_ifs
      · decide
      · split
        · exact isLine_string _
        · exact isLine_toString_int _
    · exact isLine_toString_int _
  | message m => exact hnull
  | list values => exact hnull
  | map entries => exact hnull

/-! ## Pieces -/

/-- What is written of pieces on one line is on one line. -/
theorem OnLine.written {pieces : List Piece} (h : OnLine pieces) : IsLine (written pieces).1 := by
  induction pieces with
  | nil => exact of_decide_eq_true rfl
  | cons piece rest ih =>
    cases piece with
    | fault f => exact of_decide_eq_true rfl
    | text s =>
      exact (h s List.mem_cons_self).append (ih fun t ht => h t (List.mem_cons_of_mem _ ht))

/-- No pieces are on one line. -/
theorem onLine_nil : OnLine [] := fun _ h => absurd h List.not_mem_nil

/-- A fault breaks no line. -/
theorem onLine_fault (f : Fault) : OnLine [.fault f] := fun _ h => by cases List.mem_singleton.1 h

/-- A text on one line before pieces on one line. -/
theorem OnLine.cons {s : String} {pieces : List Piece} (hs : IsLine s) (h : OnLine pieces) :
    OnLine (.text s :: pieces) := by
  intro t ht
  rcases List.mem_cons.1 ht with ht | ht
  · obtain rfl := Piece.text.inj ht
    exact hs
  · exact h t ht

/-- A text on one line. -/
theorem onLine_text {s : String} (hs : IsLine s) : OnLine [.text s] := onLine_nil.cons hs

/-- Pieces on one line before others. -/
theorem OnLine.append {first second : List Piece} (hfirst : OnLine first)
    (hsecond : OnLine second) : OnLine (first ++ second) :=
  fun s hs => (List.mem_append.1 hs).elim (hfirst s) (hsecond s)

/-- Items on one line with commas between them. -/
theorem onLine_commaSeparated {items : List (List Piece)} (h : ∀ item ∈ items, OnLine item) :
    OnLine (commaSeparated items) := by
  fun_induction commaSeparated items with
  | case1 => exact onLine_nil
  | case2 item => exact h item List.mem_cons_self
  | case3 item rest hne ih =>
    exact (h item List.mem_cons_self).append
      (.cons (by decide) (ih fun i hi => h i (List.mem_cons_of_mem _ hi)))

namespace Special

/-- An object of members on one line. -/
theorem onLine_objectPieces {members : List (String × List Piece)}
    (h : ∀ e ∈ members, OnLine e.2) : OnLine (objectPieces members) := by
  refine .append (.cons (by decide) (onLine_commaSeparated fun item hitem => ?_))
    (onLine_text (by decide))
  obtain ⟨e, he, rfl⟩ := List.mem_map.1 hitem
  exact .cons ((isLine_string _).append (by decide)) (h e he)

/-- An array of elements on one line. -/
theorem onLine_arrayPieces {elements : List (List Piece)} (h : ∀ e ∈ elements, OnLine e) :
    OnLine (arrayPieces elements) :=
  .append (.cons (by decide) (onLine_commaSeparated h)) (onLine_text (by decide))

/-- Values by name on one line are so with one put in that is. -/
theorem onLine_insertNamed (name : String) {v : List Piece} (hv : OnLine v)
    {members : List (String × List Piece)} (h : ∀ e ∈ members, OnLine e.2) :
    ∀ e ∈ insertNamed name v members, OnLine e.2 := by
  fun_induction insertNamed name v members with
  | case1 => exact List.forall_mem_singleton.2 hv
  | case2 w rest => exact List.forall_mem_cons.2 ⟨hv, (List.forall_mem_cons.1 h).2⟩
  | case3 n w rest => exact List.forall_mem_cons.2 ⟨hv, h⟩
  | case4 n w rest _ _ ih =>
    obtain ⟨hw, hrest⟩ := List.forall_mem_cons.1 h
    exact List.forall_mem_cons.2 ⟨hw, ih hrest⟩

/-- A free value that is no table and no list is on one line. -/
theorem onLine_plainPieces (fieldNumber : Nat) (node : Wire.Layout.Node) :
    OnLine (plainPieces fieldNumber node) := by
  unfold plainPieces
  split
  · split
    · rename_i s hs
      exact onLine_text (isLine_of_finite? hs)
    · exact onLine_fault _
  · exact onLine_text (isLine_string _)
  · refine onLine_text ?_
    split_ifs <;> decide
  · exact onLine_text (by decide)

mutual

/-- What a field of a free value holds is on one line. -/
theorem onLine_kindPieces (fieldNumber : Nat) : ∀ node, OnLine (kindPieces fieldNumber node)
  | .record type fields => by
    rw [kindPieces]
    split
    · exact onLine_objectPieces (onLine_tableMembers fields fun _ he => absurd he List.not_mem_nil)
    · exact onLine_arrayPieces (onLine_listElements fields)
  | .text s => onLine_plainPieces fieldNumber (.text s)
  | .bytes content => onLine_plainPieces fieldNumber (.bytes content)
  | .number n => onLine_plainPieces fieldNumber (.number n)
  | .double bits => onLine_plainPieces fieldNumber (.double bits)
  | .float bits => onLine_plainPieces fieldNumber (.float bits)

/-- A free value is on one line. -/
theorem onLine_valuePieces : ∀ {soFar : List Piece} (fields : List (Nat × Wire.Layout.Node)),
    OnLine soFar → OnLine (valuePieces soFar fields)
  | _, [], h => h
  | _, (n, node) :: rest, _ => by
    rw [valuePieces]
    exact onLine_valuePieces rest (onLine_kindPieces n node)

/-- The values of a table are on one line. -/
theorem onLine_tableMembers : ∀ {members : List (String × List Piece)}
    (fields : List (Nat × Wire.Layout.Node)), (∀ e ∈ members, OnLine e.2) →
    ∀ e ∈ tableMembers members fields, OnLine e.2
  | _, [], h => h
  | _, (_, node) :: rest, h => by
    cases node with
    | record content entry =>
      exact onLine_tableMembers rest
        (onLine_insertNamed _ (onLine_entryPieces entry (onLine_text (by decide))) h)
    | _ => exact onLine_tableMembers rest h

/-- The value of an entry of a table is on one line. -/
theorem onLine_entryPieces : ∀ {soFar : List Piece} (fields : List (Nat × Wire.Layout.Node)),
    OnLine soFar → OnLine (entryPieces soFar fields)
  | _, [], h => h
  | _, (_, node) :: rest, h => by
    cases node with
    | record content fields =>
      exact onLine_entryPieces rest (onLine_valuePieces fields (onLine_text (by decide)))
    | _ => exact onLine_entryPieces rest h

/-- The elements of a list are on one line each. -/
theorem onLine_listElements : ∀ (fields : List (Nat × Wire.Layout.Node)),
    ∀ e ∈ listElements fields, OnLine e
  | [] => fun _ h => absurd h List.not_mem_nil
  | (_, node) :: rest => by
    cases node with
    | record content fields =>
      exact List.forall_mem_cons.2
        ⟨onLine_valuePieces fields (onLine_text (by decide)), onLine_listElements rest⟩
    | _ => exact onLine_listElements rest

end

end Special

/-- A message with a form of its own, other than a packed one, is on one line. -/
theorem Special.onLine_pieces (type : String) (fields : List (Nat × Wire.Layout.Node))
    (special : Special) : OnLine (special.pieces type fields) := by
  cases special with
  | packed => exact onLine_nil
  | moment =>
    simp only [pieces]
    split
    · exact onLine_text (isLine_string _)
    · exact onLine_fault _
  | span =>
    simp only [pieces]
    split
    · exact onLine_text (isLine_string _)
    · exact onLine_fault _
  | table =>
    exact onLine_objectPieces (onLine_tableMembers fields fun _ he => absurd he List.not_mem_nil)
  | wrapper => exact onLine_text (isLine_wrapperText type fields)
  | mask =>
    simp only [pieces]
    split
    · exact onLine_text (isLine_string _)
    · exact onLine_fault _
  | list => exact onLine_arrayPieces (onLine_listElements fields)
  | value => exact onLine_valuePieces fields (onLine_text (by decide))
  | unit => exact onLine_text (by decide)

/-! ## Messages -/

/-- Messages that others hold in packed form are on one line. -/
structure Unpacking.OnLine (inner : Unpacking) : Prop where
  /-- A message is on one line. -/
  whole : ∀ index m, Json.OnLine (inner.whole index m)
  /-- The members of the object that a message is are on one line. -/
  members : ∀ index m, ∀ member ∈ inner.members index m, Json.OnLine member

variable {p : Pool} {inner : Unpacking}

/-- A packed message is on one line. -/
theorem onLine_ofPacked (h : inner.OnLine) (fields : List (Nat × Wire.Layout.Node)) :
    OnLine (ofPacked p inner fields) := by
  have hopening : ∀ address, IsLine ("\x7b" ++ string "@type" ++ ":" ++ string address) :=
    fun address => .append (by decide) (isLine_string address)
  simp only [ofPacked]
  split
  · exact onLine_fault _
  · split
    · exact onLine_fault _
    · split
      · exact onLine_fault _
      · split
        · exact .append (.cons (.append (.append (.append (hopening _) (by decide)) (by decide))
            (by decide)) (h.whole _ _)) (onLine_text (by decide))
        · refine .append (onLine_commaSeparated ?_) (onLine_text (by decide))
          exact List.forall_mem_cons.2 ⟨onLine_text (hopening _), h.members _ _⟩

/-- A message with a form of its own is on one line. -/
theorem onLine_ofSpecial? (h : inner.OnLine) {index : Nat} {m : Message} {pieces : List Piece}
    (hm : ofSpecial? p inner index m = some pieces) : OnLine pieces := by
  unfold ofSpecial? at hm
  split at hm
  · cases hm
  · split at hm <;> obtain rfl := Option.some.inj hm
    · exact onLine_fault _
    · exact onLine_fault _
    · exact onLine_ofPacked h _
    · exact Special.onLine_pieces _ _ _

mutual

/-- A message is on one line. -/
theorem onLine_ofMessageWith (h : inner.OnLine) (index : Nat) :
    ∀ m, OnLine (ofMessageWith p inner index m)
  | ⟨entries⟩ => by
    rw [ofMessageWith]
    split
    · rename_i pieces hpieces
      exact onLine_ofSpecial? h hpieces
    · have hmembers := List.forall_mem_append.2
        ⟨onLine_ofEntries h (p.message index).fields (·.jsonName) entries,
          onLine_ofEntries h (p.message index).extensions (fun f => "[" ++ f.fullName ++ "]")
            entries⟩
      exact .append (.cons (by decide) (onLine_commaSeparated hmembers)) (onLine_text (by decide))

/-- The members that entries are, are on one line each. -/
theorem onLine_ofEntries (h : inner.OnLine) (table : FieldTable) (name : Field → String) :
    ∀ entries, ∀ item ∈ ofEntries p inner table name entries, OnLine item
  | [], _, hitem => absurd hitem List.not_mem_nil
  | (fieldNumber, e) :: rest, item, hitem => by
    rw [ofEntries] at hitem
    rcases List.mem_append.1 hitem with hitem | hitem
    · split at hitem
      · exact onLine_ofEntry h _ _ e item hitem
      · exact absurd hitem List.not_mem_nil
    · exact onLine_ofEntries h table name rest item hitem

/-- The member that an entry is, is on one line. -/
theorem onLine_ofEntry (h : inner.OnLine) (f : Field) (name : String) :
    ∀ e, ∀ item ∈ ofEntry p inner f name e, OnLine item
  | .unknown _, _, hitem => absurd hitem List.not_mem_nil
  | .value v, item, hitem => by
    rw [ofEntry] at hitem
    split at hitem
    · obtain rfl := List.mem_singleton.1 hitem
      exact .cons ((isLine_string _).append (by decide)) (onLine_ofValue h f.kind v)
    · exact absurd hitem List.not_mem_nil

/-- A value is on one line. -/
theorem onLine_ofValue (h : inner.OnLine) (kind : Kind) :
    ∀ v, OnLine (ofValue p inner kind v)
  | .message m => by
    cases kind with
    | message index => exact onLine_ofMessageWith h index m
    | _ => exact onLine_nil
  | .list values => by
    rw [ofValue]
    exact .append (.cons (by decide) (onLine_commaSeparated (onLine_ofList h kind values)))
      (onLine_text (by decide))
  | .map entries =>
    .append (.cons (by decide) (onLine_commaSeparated (onLine_ofMap h _ entries)))
      (onLine_text (by decide))
  | .bool b => onLine_text (isLine_plainText p kind (.bool b))
  | .i32 n => onLine_text (isLine_plainText p kind (.i32 n))
  | .i64 n => onLine_text (isLine_plainText p kind (.i64 n))
  | .u32 n => onLine_text (isLine_plainText p kind (.u32 n))
  | .u64 n => onLine_text (isLine_plainText p kind (.u64 n))
  | .f32 bits => onLine_text (isLine_plainText p kind (.f32 bits))
  | .f64 bits => onLine_text (isLine_plainText p kind (.f64 bits))
  | .string s => onLine_text (isLine_plainText p kind (.string s))
  | .bytes content => onLine_text (isLine_plainText p kind (.bytes content))
  | .enum n => onLine_text (isLine_plainText p kind (.enum n))

/-- The elements of a list are on one line each. -/
theorem onLine_ofList (h : inner.OnLine) (kind : Kind) :
    ∀ values, ∀ item ∈ ofList p inner kind values, OnLine item
  | [] => fun _ hitem => absurd hitem List.not_mem_nil
  | v :: rest => by
    rw [ofList]
    exact List.forall_mem_cons.2 ⟨onLine_ofValue h kind v, onLine_ofList h kind rest⟩

/-- The members of the object that a map is are on one line each. -/
theorem onLine_ofMap (h : inner.OnLine) (kind : Kind) :
    ∀ entries, ∀ item ∈ ofMap p inner kind entries, OnLine item
  | [] => fun _ hitem => absurd hitem List.not_mem_nil
  | (key, v) :: rest => by
    rw [ofMap]
    exact List.forall_mem_cons.2
      ⟨.cons ((isLine_string _).append (by decide)) (onLine_ofValue h kind v),
        onLine_ofMap h kind rest⟩

end

/-- Packed messages are on one line, to any depth. -/
theorem onLine_unpacking (p : Pool) (depth : Nat) : (unpacking p depth).OnLine := by
  induction depth with
  | zero => exact ⟨fun _ _ => onLine_nil, fun _ _ _ h => absurd h List.not_mem_nil⟩
  | succ depth ih =>
    exact ⟨onLine_ofMessageWith ih, fun index m => List.forall_mem_append.2
      ⟨onLine_ofEntries ih _ _ m.entries, onLine_ofEntries ih _ _ m.entries⟩⟩

/-- The text of a message is on one line. -/
theorem onLine_ofMessage (p : Pool) (index : Nat) (m : Message) : OnLine (ofMessage p index m) :=
  onLine_ofMessageWith (onLine_unpacking p _) index m

end ColumnarRecords.Json
