import Mathlib.Data.List.Nodup
import ColumnarRecords.Toml.Document

/-!
# Names in settings files come once

No table that a settings file gives has two entries of one name, at any depth
(`Toml.distinct_of_settings?`). A name is added to a table only after it was looked for in vain
(`Toml.Node.EntriesDistinct.append`), and otherwise what it stands for is replaced
(`Toml.Node.EntriesDistinct.replace`), so each statement of the file keeps it so
(`Toml.Node.EntriesDistinct.run`).
-/

namespace ColumnarRecords

/-- In no table of a setting two entries have one name. -/
inductive Setting.Distinct : Setting → Prop where
  /-- Nothing. -/
  | unset : Distinct .unset
  /-- A truth value. -/
  | bool (b : Bool) : Distinct (.bool b)
  /-- A whole number. -/
  | int (n : Int) : Distinct (.int n)
  /-- A floating point number. -/
  | float (bits : Nat) : Distinct (.float bits)
  /-- A text. -/
  | text (s : String) : Distinct (.text s)
  /-- A table of entries with different names. -/
  | table {entries : List (String × Setting)} (names : (entries.map Prod.fst).Nodup)
      (inner : ∀ e ∈ entries, e.2.Distinct) : Distinct (.table entries)
  /-- Settings in order. -/
  | list {items : List Setting} (inner : ∀ s ∈ items, s.Distinct) : Distinct (.list items)

namespace Toml

namespace Node

/-- The setting that a node is has no name twice. -/
def Distinct (node : Node) : Prop := node.toSetting.Distinct

/-- The entries of a table have no name twice. -/
structure EntriesDistinct (entries : List (String × Node)) : Prop where
  /-- The entries have different names. -/
  names : (entries.map Prod.fst).Nodup
  /-- The same holds inside of them. -/
  inner : ∀ e ∈ entries, e.2.Distinct

/-- The settings of entries have their names. -/
theorem entriesToSettings_eq_map (entries : List (String × Node)) :
    entriesToSettings entries = entries.map fun e => (e.1, e.2.toSetting) := by
  induction entries with
  | nil => rfl
  | cons e rest ih => rw [entriesToSettings, ih, List.map_cons]

/-- The settings of tables are in their order. -/
theorem itemsToSettings_eq_map (items : List (List (String × Node))) :
    itemsToSettings items = items.map fun entries => .table (entriesToSettings entries) := by
  induction items with
  | nil => rfl
  | cons entries rest ih => rw [itemsToSettings, ih, List.map_cons]

/-- Entries have no name twice exactly if the table of them has none. -/
theorem distinct_table_iff {entries : List (String × Node)} :
    (Setting.table (entriesToSettings entries)).Distinct ↔ EntriesDistinct entries := by
  have hnames : (entriesToSettings entries).map Prod.fst = entries.map Prod.fst := by
    rw [entriesToSettings_eq_map, List.map_map]
    rfl
  constructor
  · rintro (_ | _ | _ | _ | _ | ⟨names, inner⟩ | _)
    refine ⟨hnames ▸ names, fun e he => inner (e.1, e.2.toSetting) ?_⟩
    rw [entriesToSettings_eq_map]
    exact List.mem_map_of_mem he
  · rintro ⟨names, inner⟩
    refine .table (hnames ▸ names) fun e he => ?_
    rw [entriesToSettings_eq_map] at he
    obtain ⟨entry, hentry, rfl⟩ := List.mem_map.1 he
    exact inner entry hentry

/-- Several tables have no name twice exactly if none of them has one twice. -/
theorem distinct_tables_iff {items : List (List (String × Node))} :
    (tables items).Distinct ↔ ∀ entries ∈ items, EntriesDistinct entries := by
  have hlist : (tables items).toSetting =
      .list (items.map fun entries => .table (entriesToSettings entries)) := by
    rw [toSetting, itemsToSettings_eq_map]
  rw [Distinct, hlist]
  constructor
  · rintro (_ | _ | _ | _ | _ | _ | inner)
    exact fun entries he => distinct_table_iff.1 (inner _ (List.mem_map_of_mem he))
  · intro h
    refine .list fun s hs => ?_
    obtain ⟨entries, he, rfl⟩ := List.mem_map.1 hs
    exact distinct_table_iff.2 (h entries he)

/-- A node that is found has no name twice. -/
theorem EntriesDistinct.find {entries : List (String × Node)} (h : EntriesDistinct entries)
    {name : String} {node : Node} (hfind : find? name entries = some node) : node.Distinct := by
  obtain ⟨e, he, rfl⟩ := Option.map_eq_some_iff.1 hfind
  exact h.inner e (List.mem_of_find?_eq_some he)

/-- There are no entries. -/
theorem EntriesDistinct.nil : EntriesDistinct [] :=
  ⟨List.nodup_nil, fun _ he => absurd he List.not_mem_nil⟩

/-- A name that is not there can be added. -/
theorem EntriesDistinct.append {entries : List (String × Node)} (h : EntriesDistinct entries)
    {name : String} (hfind : find? name entries = none) {node : Node} (hnode : node.Distinct) :
    EntriesDistinct (entries ++ [(name, node)]) := by
  have hnew : name ∉ entries.map Prod.fst := by
    intro hmem
    obtain ⟨e, he, rfl⟩ := List.mem_map.1 hmem
    have hnone := List.find?_eq_none.1 (Option.map_eq_none_iff.1 hfind) e he
    simp at hnone
  refine ⟨?_, fun e he => ?_⟩
  · rw [List.map_append, List.map_singleton, List.nodup_append_comm]
    exact List.nodup_cons.2 ⟨hnew, h.names⟩
  · rcases List.mem_append.1 he with hold | hadded
    · exact h.inner e hold
    · obtain rfl := List.mem_singleton.1 hadded
      exact hnode

/-- The node of a name can be replaced. -/
theorem EntriesDistinct.replace {entries : List (String × Node)} (h : EntriesDistinct entries)
    (name : String) {node : Node} (hnode : node.Distinct) :
    EntriesDistinct (replace name node entries) := by
  have hnames : (Node.replace name node entries).map Prod.fst = entries.map Prod.fst := by
    rw [Node.replace, List.map_map]
    refine List.map_congr_left fun e he => ?_
    by_cases hname : e.1 = name <;> simp [hname]
  refine ⟨hnames ▸ h.names, fun e he => ?_⟩
  obtain ⟨old, hold, rfl⟩ := List.mem_map.1 he
  split
  · exact hnode
  · exact h.inner old hold

/-- A change of entries that keeps their names different does so inside a node. -/
theorem Distinct.within {change : List (String × Node) → Option (List (String × Node))}
    (hchange : ∀ entries changed, EntriesDistinct entries → change entries = some changed →
      EntriesDistinct changed)
    {node changed : Node} (h : node.Distinct) (hwithin : within? change node = some changed) :
    changed.Distinct := by
  cases node with
  | value s => cases hwithin
  | table origin entries =>
    obtain ⟨inner, hinner, rfl⟩ := Option.map_eq_some_iff.1 hwithin
    exact distinct_table_iff.2 (hchange entries inner (distinct_table_iff.1 h) hinner)
  | tables items =>
    have hitems := distinct_tables_iff.1 h
    cases hlast : items.getLast? with
    | none => simp only [within?, hlast, reduceCtorEq] at hwithin
    | some entries =>
      simp only [within?, hlast] at hwithin
      obtain ⟨inner, hinner, rfl⟩ := Option.map_eq_some_iff.1 hwithin
      refine distinct_tables_iff.2 fun other hother => ?_
      rcases List.mem_append.1 hother with hbefore | hnew
      · exact hitems other (List.dropLast_subset items hbefore)
      · obtain rfl := List.mem_singleton.1 hnew
        exact hchange entries other (hitems entries (List.mem_of_getLast? hlast)) hinner

/-- Setting a value keeps names different. -/
theorem EntriesDistinct.set {s : Setting} (hs : s.Distinct) {names : List String}
    {entries changed : List (String × Node)} (h : EntriesDistinct entries)
    (hset : set? s names entries = some changed) : EntriesDistinct changed := by
  induction names generalizing entries changed with
  | nil => cases hset
  | cons name rest ih =>
    cases rest with
    | nil =>
      simp only [set?] at hset
      split at hset
      · rename_i hfind
        obtain rfl := Option.some.inj hset
        exact h.append hfind hs
      · cases hset
    | cons next rest =>
      simp only [set?] at hset
      split at hset
      · rename_i hfind
        obtain ⟨inner, hinner, rfl⟩ := Option.map_eq_some_iff.1 hset
        exact h.append hfind (distinct_table_iff.2 (ih .nil hinner))
      · cases hset
      · cases hset
      · rename_i node _ _ hfind
        split at hset
        · obtain ⟨node', hwithin, rfl⟩ := Option.map_eq_some_iff.1 hset
          exact h.replace name ((h.find hfind).within (fun _ _ => ih) hwithin)
        · cases hset

/-- A change at the end of the names of a header keeps names different, if it does so there. -/
theorem EntriesDistinct.descend {change : List (String × Node) → Option (List (String × Node))}
    (hchange : ∀ entries changed, EntriesDistinct entries → change entries = some changed →
      EntriesDistinct changed)
    {names : List String} {entries changed : List (String × Node)} (h : EntriesDistinct entries)
    (hdescend : descend? change names entries = some changed) : EntriesDistinct changed := by
  induction names generalizing entries changed with
  | nil => exact hchange entries changed h hdescend
  | cons name rest ih =>
    simp only [descend?] at hdescend
    split at hdescend
    · rename_i hfind
      obtain ⟨inner, hinner, rfl⟩ := Option.map_eq_some_iff.1 hdescend
      exact h.append hfind (distinct_table_iff.2 (ih .nil hinner))
    · rename_i node hfind
      obtain ⟨node', hwithin, rfl⟩ := Option.map_eq_some_iff.1 hdescend
      exact h.replace name ((h.find hfind).within (fun _ _ => ih) hwithin)

/-- Opening a table keeps names different. -/
theorem EntriesDistinct.open {name : String} {entries changed : List (String × Node)}
    (h : EntriesDistinct entries) (hopen : open? name entries = some changed) :
    EntriesDistinct changed := by
  unfold open? at hopen
  split at hopen
  · rename_i hfind
    obtain rfl := Option.some.inj hopen
    exact h.append hfind (distinct_table_iff.2 .nil)
  · rename_i inner hfind
    obtain rfl := Option.some.inj hopen
    -- Only the origin of the table is another.
    exact h.replace name (distinct_table_iff.2 (distinct_table_iff.1 (h.find hfind)))
  · cases hopen

/-- Appending a table keeps names different. -/
theorem EntriesDistinct.appendTable {name : String} {entries changed : List (String × Node)}
    (h : EntriesDistinct entries) (happend : append? name entries = some changed) :
    EntriesDistinct changed := by
  unfold append? at happend
  split at happend
  · rename_i hfind
    obtain rfl := Option.some.inj happend
    refine h.append hfind (distinct_tables_iff.2 fun item hitem => ?_)
    rw [List.mem_singleton.1 hitem]
    exact .nil
  · rename_i items hfind
    obtain rfl := Option.some.inj happend
    refine h.replace name (distinct_tables_iff.2 fun item hitem => ?_)
    rcases List.mem_append.1 hitem with hold | hnew
    · exact distinct_tables_iff.1 (h.find hfind) item hold
    · rw [List.mem_singleton.1 hnew]
      exact .nil
  · cases happend

end Node

open Node (EntriesDistinct)

/-! ## Values -/

/-- The items between brackets have what every item has. -/
theorem forall_mem_items {α : Type} {item? : List Token → Option (α × List Token)} {P : α → Prop}
    (hitem : ∀ ts a rest, item? ts = some (a, rest) → P a) {close : Char}
    {ts rest : List Token} {as : List α} (h : items? item? close ts = some (as, rest)) :
    ∀ a ∈ as, P a := by
  fun_induction items? item? close ts generalizing as with
  | case1 | case3 | case6 | case7 => cases h
  | case2 =>
    obtain ⟨rfl, -⟩ := Prod.mk.inj (Option.some.inj h)
    exact fun a ha => absurd ha List.not_mem_nil
  | case4 _ _ _ _ _ first _ hfirst =>
    obtain ⟨rfl, -⟩ := Prod.mk.inj (Option.some.inj h)
    intro a ha
    obtain rfl := List.mem_singleton.1 ha
    exact hitem _ _ _ hfirst
  | case5 _ _ _ _ _ first _ hfirst _ _ _ _ _ ih =>
    obtain ⟨⟨others, after⟩, hothers, he⟩ := Option.map_eq_some_iff.1 h
    obtain ⟨rfl, rfl⟩ := Prod.mk.inj he
    exact List.forall_mem_cons.2 ⟨hitem _ _ _ hfirst, ih hothers⟩

/-- A number has no names. -/
theorem distinct_of_signed? {negative : Bool} {content : List Char} {s : Setting}
    (h : signed? negative content = some s) : s.Distinct := by
  unfold signed? at h
  split at h
  · obtain rfl := Option.some.inj h
    exact .int _
  · obtain ⟨bits, -, rfl⟩ := Option.map_eq_some_iff.1 h
    exact .float _

/-- A plain value has no names. -/
theorem distinct_of_scalar? {content : List Char} {s : Setting} (h : scalar? content = some s) :
    s.Distinct := by
  have hbased : ∀ {n? : Option Int}, n?.map Setting.int = some s → s.Distinct := by
    intro n? hn
    obtain ⟨n, -, rfl⟩ := Option.map_eq_some_iff.1 hn
    exact .int n
  unfold scalar? at h
  split at h
  · obtain rfl := Option.some.inj h
    exact .bool true
  · split at h
    · obtain rfl := Option.some.inj h
      exact .bool false
    · split at h
      · obtain rfl := Option.some.inj h
        exact .text _
      · split at h <;> first | exact hbased h | exact distinct_of_signed? h

/-- What a value is, by the token that it begins with. -/
theorem value?_cases {depth : Nat} {ts rest : List Token} {s : Setting}
    (h : value? depth ts = some (s, rest)) :
    (∃ content, s = .text content) ∨ (∃ content, scalar? content = some s) ∨
      ∃ inner after, depth = inner + 1 ∧
        ((∃ items, items? (value? inner) ']' after = some (items, rest) ∧ s = .list items) ∨
          ∃ entries table, items? (keyValue? (value? inner)) '\x7d' after = some (entries, rest) ∧
            entries.foldlM (fun table e => Node.set? e.2 e.1 table) [] = some table ∧
            s = .table (Node.entriesToSettings table)) := by
  obtain _ | ⟨t, after⟩ := ts
  · cases depth <;> cases h
  unfold value? at h
  split at h
  · obtain ⟨rfl, -⟩ := Prod.mk.inj (Option.some.inj h)
    exact .inl ⟨_, rfl⟩
  · obtain ⟨rfl, -⟩ := Prod.mk.inj (Option.some.inj h)
    exact .inl ⟨_, rfl⟩
  · obtain ⟨plain, hplain, he⟩ := Option.map_eq_some_iff.1 h
    obtain ⟨rfl, -⟩ := Prod.mk.inj he
    exact .inr (.inl ⟨_, hplain⟩)
  · -- Brackets around items.
    split at h
    · cases h
    · rename_i inner
      obtain ⟨⟨items, after'⟩, hitems, he⟩ := Option.map_eq_some_iff.1 h
      obtain ⟨rfl, rfl⟩ := Prod.mk.inj he
      exact .inr (.inr ⟨inner, after, rfl, .inl ⟨items, hitems, rfl⟩⟩)
  · -- Braces around keys with values.
    split at h
    · cases h
    · rename_i inner
      split at h
      · cases h
      · rename_i entries after' hentries
        obtain ⟨table, htable, he⟩ := Option.map_eq_some_iff.1 h
        obtain ⟨rfl, rfl⟩ := Prod.mk.inj he
        exact .inr (.inr ⟨inner, after, rfl, .inr ⟨entries, table, hentries, htable, rfl⟩⟩)
  · cases h

/-- The value of a key has what every value has. -/
theorem of_keyValue? {v? : List Token → Option (Setting × List Token)} {P : Setting → Prop}
    (hv : ∀ ts s rest, v? ts = some (s, rest) → P s) {ts rest : List Token}
    {e : List String × Setting} (h : keyValue? v? ts = some (e, rest)) : P e.2 := by
  unfold keyValue? at h
  split at h
  · obtain ⟨⟨s, after⟩, hs, he⟩ := Option.map_eq_some_iff.1 h
    obtain ⟨rfl, -⟩ := Prod.mk.inj he
    exact hv _ _ _ hs
  · cases h

/-- Setting values one after another keeps names different. -/
theorem Node.EntriesDistinct.foldlM_set {entries : List (List String × Setting)}
    (hentries : ∀ e ∈ entries, e.2.Distinct) {table changed : List (String × Node)}
    (htable : EntriesDistinct table)
    (h : entries.foldlM (fun table e => Node.set? e.2 e.1 table) table = some changed) :
    EntriesDistinct changed := by
  induction entries generalizing table with
  | nil =>
    obtain rfl := Option.some.inj h
    exact htable
  | cons e rest ih =>
    obtain ⟨he, hrest⟩ := List.forall_mem_cons.1 hentries
    rw [List.foldlM_cons] at h
    obtain ⟨next, hnext, hafter⟩ := Option.bind_eq_some_iff.1 h
    exact ih hrest (htable.set he hnext) hafter

/-- A value has no name twice. -/
theorem distinct_of_value? {depth : Nat} {ts rest : List Token} {s : Setting}
    (h : value? depth ts = some (s, rest)) : s.Distinct := by
  induction depth using Nat.strongRecOn generalizing ts rest s with
  | _ depth ih =>
    obtain ⟨content, rfl⟩ | ⟨content, hcontent⟩ | ⟨inner, after, rfl, hinner⟩ := value?_cases h
    · exact .text content
    · exact distinct_of_scalar? hcontent
    · have hvalue : ∀ ts s rest, value? inner ts = some (s, rest) → s.Distinct :=
        fun _ _ _ hs => ih inner (Nat.lt_succ_self inner) hs
      obtain ⟨items, hitems, rfl⟩ | ⟨entries, table, hentries, htable, rfl⟩ := hinner
      · exact .list (forall_mem_items hvalue hitems)
      · have hvalues : ∀ e ∈ entries, e.2.Distinct :=
          forall_mem_items (fun _ _ _ he => of_keyValue? hvalue he) hentries
        exact Node.distinct_table_iff.2 (EntriesDistinct.foldlM_set hvalues .nil htable)

/-! ## Statements -/

/-- The value of a statement, if it has one, has no name twice. -/
def Statement.Distinct : Statement → Prop
  | .table _ | .element _ => True
  | .entry _ s => s.Distinct

/-- The value of a statement that is read has no name twice. -/
theorem distinct_of_statement? {ts rest : List Token} {statement : Statement}
    (h : statement? ts = some (statement, rest)) : statement.Distinct := by
  unfold statement? at h
  split at h
  · split at h
    · obtain ⟨rfl, -⟩ := Prod.mk.inj (Option.some.inj h)
      trivial
    · cases h
  · split at h
    · obtain ⟨rfl, -⟩ := Prod.mk.inj (Option.some.inj h)
      trivial
    · cases h
  · obtain ⟨⟨e, after⟩, he, heq⟩ := Option.map_eq_some_iff.1 h
    obtain ⟨rfl, -⟩ := Prod.mk.inj heq
    exact of_keyValue? (fun _ _ _ => distinct_of_value?) he

/-- The values of the statements of a file have no name twice. -/
theorem distinct_of_statements? {ts : List Token} {statements : List Statement}
    (h : statements? ts = some statements) : ∀ s ∈ statements, s.Distinct := by
  fun_induction statements? ts generalizing statements with
  | case1 =>
    obtain rfl := Option.some.inj h
    exact fun s hs => absurd hs List.not_mem_nil
  | case2 | case5 | case6 => cases h
  | case3 _ _ _ _ first _ hfirst =>
    obtain rfl := Option.some.inj h
    intro s hs
    obtain rfl := List.mem_singleton.1 hs
    exact distinct_of_statement? hfirst
  | case4 _ _ _ _ first _ hfirst _ _ _ ih =>
    obtain ⟨others, hothers, rfl⟩ := Option.map_eq_some_iff.1 h
    exact List.forall_mem_cons.2 ⟨distinct_of_statement? hfirst, ih hothers⟩

/-- A statement keeps names different. -/
theorem Node.EntriesDistinct.run {statement : Statement} (hs : statement.Distinct)
    {progress next : Progress} (hprogress : EntriesDistinct progress.2)
    (h : statement.run? progress = some next) : EntriesDistinct next.2 := by
  obtain ⟨current, entries⟩ := progress
  cases statement with
  | table names =>
    simp only [Statement.run?] at h
    split at h
    · cases h
    · obtain ⟨changed, hchanged, rfl⟩ := Option.map_eq_some_iff.1 h
      exact hprogress.descend (fun _ _ he => he.open) hchanged
  | element names =>
    simp only [Statement.run?] at h
    split at h
    · cases h
    · obtain ⟨changed, hchanged, rfl⟩ := Option.map_eq_some_iff.1 h
      exact hprogress.descend (fun _ _ he => he.appendTable) hchanged
  | entry names s =>
    obtain ⟨changed, hchanged, rfl⟩ := Option.map_eq_some_iff.1 h
    exact hprogress.descend (fun _ _ he => he.set hs) hchanged

/-- Statements keep names different. -/
theorem Node.EntriesDistinct.runAll {statements : List Statement}
    (hstatements : ∀ s ∈ statements, s.Distinct) {progress final : Progress}
    (hprogress : EntriesDistinct progress.2)
    (h : statements.foldlM (fun progress s => s.run? progress) progress = some final) :
    EntriesDistinct final.2 := by
  induction statements generalizing progress with
  | nil =>
    obtain rfl := Option.some.inj h
    exact hprogress
  | cons s rest ih =>
    obtain ⟨hs, hrest⟩ := List.forall_mem_cons.1 hstatements
    rw [List.foldlM_cons] at h
    obtain ⟨next, hnext, hafter⟩ := Option.bind_eq_some_iff.1 h
    exact ih hrest (hprogress.run hs hnext) hafter

/-- No table of the settings that a file gives has two entries of one name. -/
theorem distinct_of_settings? {text : List Char} {entries : List (String × Setting)}
    (h : settings? text = some entries) : (Setting.table entries).Distinct := by
  simp only [settings?, Option.bind_eq_bind, Option.bind_eq_some_iff, Option.pure_def,
    Option.some.injEq] at h
  obtain ⟨_, -, _, -, statements, hstatements, ⟨_, nodes⟩, hnodes, rfl⟩ := h
  exact Node.distinct_table_iff.2
    (EntriesDistinct.runAll (distinct_of_statements? hstatements) .nil hnodes)

end Toml

end ColumnarRecords
