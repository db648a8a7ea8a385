import Mathlib
import ColumnarRecords.Metadata.Text
import ColumnarRecords.Proofs.Descriptor.Sound
import ColumnarRecords.Proofs.Metadata.Tokens
import ColumnarRecords.Proofs.Wire.RoundTrip

/-!
# What the text form can say

Each reader of the text form takes tokens from the start, and what it reads of them is no more than
they weigh (`Takes`). So the metadata of a text costs no more than the text has bytes
(`Metadata.cost_ofText_le`), where a class name and field numbers are counted as their binary form
has them and a little over. A text that says anything begins with the name of a field
(`Metadata.head_of_readFields`), as the other beginnings lead to nothing that is ever read to its
end.
-/

namespace ColumnarRecords

open Descriptor

namespace Metadata

open Token Text

/-! ## Taking tokens -/

/-- One token or more was taken from the start, of some weight together. -/
def Takes (n : Nat) (tokens rest : List Token) : Prop :=
  ∃ taken, tokens = taken ++ rest ∧ taken ≠ [] ∧ n ≤ totalWeight taken

namespace Takes

variable {n k : Nat} {tokens rest rest' : List Token}

/-- A token is taken. -/
theorem cons (t : Token) (rest : List Token) : Takes t.weight (t :: rest) rest :=
  ⟨[t], rfl, List.cons_ne_nil _ _, Nat.le_refl _⟩

/-- What was taken weighs no less than less. -/
theorem mono (h : Takes n tokens rest) (hle : k ≤ n) : Takes k tokens rest := by
  obtain ⟨taken, rfl, hne, hweight⟩ := h
  exact ⟨taken, rfl, hne, hle.trans hweight⟩

/-- Tokens are taken after a first one. -/
theorem cons_suffix (t : Token) (h : rest <:+ tokens) : Takes t.weight (t :: tokens) rest := by
  obtain ⟨between, rfl⟩ := h
  refine ⟨t :: between, rfl, List.cons_ne_nil _ _, ?_⟩
  rw [totalWeight]
  exact Nat.le_add_right _ _

/-- More tokens are dropped after those that were taken. -/
theorem suffix (h : Takes n tokens rest) (h' : rest' <:+ rest) : Takes n tokens rest' := by
  obtain ⟨taken, rfl, hne, hweight⟩ := h
  obtain ⟨between, rfl⟩ := h'
  refine ⟨taken ++ between, (List.append_assoc _ _ _).symm, by simp [hne], ?_⟩
  rw [totalWeight_append]
  omega

/-- Tokens are taken after others. -/
theorem trans (h : Takes n tokens rest) (h' : Takes k rest rest') :
    Takes (n + k) tokens rest' := by
  obtain ⟨taken, rfl, hne, hweight⟩ := h
  obtain ⟨taken', rfl, -, hweight'⟩ := h'
  refine ⟨taken ++ taken', (List.append_assoc _ _ _).symm, by simp [hne], ?_⟩
  rw [totalWeight_append]
  omega

/-- What is left are the last of the tokens. -/
theorem isSuffix (h : Takes n tokens rest) : rest <:+ tokens := by
  obtain ⟨taken, rfl, -, -⟩ := h
  exact List.suffix_append _ _

/-- Fewer tokens are left. -/
theorem length_lt (h : Takes n tokens rest) : rest.length < tokens.length := by
  obtain ⟨taken, rfl, hne, -⟩ := h
  have hpos := List.length_pos_iff.2 hne
  rw [List.length_append]
  omega

/-- What is left weighs less by what was taken. -/
theorem add_le (h : Takes n tokens rest) : n + totalWeight rest ≤ totalWeight tokens := by
  obtain ⟨taken, rfl, -, hweight⟩ := h
  rw [totalWeight_append]
  omega

end Takes

/-! ## Names -/

/-- What is left after words with points between them are the last of the tokens. -/
theorem suffix_readQualified {stop : Option Token.Fault} {after : Expectation} {marks : List Char}
    {tokens rest : List Token} {name : List Char} {ending : Char}
    (h : readQualified stop after marks tokens = .ok (name, ending, rest)) : rest <:+ tokens := by
  fun_induction readQualified stop after marks tokens generalizing name with
  | case1 => cases h
  | case2 w rest' name' ending' after' hread ih =>
    obtain ⟨-, rfl, rfl⟩ := by simpa using h
    exact ((ih hread).trans (List.suffix_cons _ _)).trans (List.suffix_cons _ _)
  | case3 =>
    obtain ⟨-, -, rfl⟩ := by simpa using h
    exact (List.suffix_cons _ _).trans (List.suffix_cons _ _)
  | case4 => cases h
  | case5 => cases h
  | case6 => cases h

/-- How much a name weighs at least. -/
def Name.weight : Name → Nat
  | .field name => name.length
  | _ => 0

/-- A name is taken. -/
theorem takes_readName {stop : Option Token.Fault} {tokens rest : List Token} {name : Name}
    (h : readName stop tokens = .ok (name, rest)) : Takes name.weight tokens rest := by
  unfold readName at h
  split at h
  · rename_i w rest'
    obtain ⟨rfl, rfl⟩ := by simpa using h
    have htake := Takes.cons (.word w) rest'
    rw [Token.weight] at htake
    rw [Name.weight, String.length_ofList]
    exact htake
  · rename_i rest'
    split at h
    · cases h
    · rename_i name' ending after hread
      have hafter := suffix_readQualified hread
      split at h
      · obtain ⟨rfl, rfl⟩ := by simpa using h
        exact (Takes.cons_suffix _ hafter).mono (Nat.zero_le _)
      · split at h
        · cases h
        · rename_i type _ after' hread'
          obtain ⟨rfl, rfl⟩ := by simpa using h
          have hafter' := (suffix_readQualified hread').trans hafter
          exact (Takes.cons_suffix _ hafter').mono (Nat.zero_le _)
  · cases h

/-- A plain name is a word. -/
theorem head_of_readName {stop : Option Token.Fault} {t : Token} {tokens rest : List Token}
    {name : String} (h : readName stop (t :: tokens) = .ok (.field name, rest)) :
    t = .word name.toList := by
  unfold readName at h
  split at h
  · rename_i w rest' htokens
    obtain ⟨hname, -⟩ := Prod.mk.inj (Except.ok.inj h)
    rw [← Name.field.inj hname, String.toList_ofList]
    exact (List.cons.inj htokens).1
  · split at h
    · cases h
    · split at h
      · cases h
      · split at h <;> cases h
  · cases h

/-- What is left after a colon are the last of the tokens. -/
theorem suffix_readColon {stop : Option Token.Fault} {tokens rest : List Token}
    (h : readColon stop tokens = .ok rest) : rest <:+ tokens := by
  unfold readColon at h
  split at h
  · obtain rfl := Except.ok.inj h
    exact List.suffix_cons _ _
  · obtain rfl := Except.ok.inj h
    exact List.suffix_refl _
  · obtain rfl := Except.ok.inj h
    exact List.suffix_refl _
  · cases h

/-- What is left after a comma or semicolon are the last of the tokens. -/
theorem suffix_skipSeparator (tokens : List Token) : skipSeparator tokens <:+ tokens := by
  unfold skipSeparator
  split
  · exact List.suffix_cons _ _
  · exact List.suffix_cons _ _
  · exact List.suffix_refl _

/-! ## Whole numbers -/

/-- A digit of a base is less than the base. -/
theorem digitIn?_lt {base d : Nat} {c : Char} (h : Numeral.digitIn? base c = some d) :
    d < base := by
  unfold Numeral.digitIn? at h
  simp only [Option.ite_none_right_eq_some, Option.some.injEq] at h
  exact h.2 ▸ h.1

/-- The number that digits continue is bounded by how many there are, and by what is allowed. -/
theorem readDigits_lt {base max acc n : Nat} {excess : Numeral.Fault} {digits : List Char}
    (h : Numeral.readDigits base max excess acc digits = .ok n) :
    n < (acc + 1) * base ^ digits.length ∧ (acc ≤ max → n ≤ max) := by
  induction digits generalizing acc with
  | nil =>
    obtain rfl := Except.ok.inj h
    exact ⟨by simp, id⟩
  | cons c rest ih =>
    rw [Numeral.readDigits] at h
    split at h
    · cases h
    · rename_i d hd
      have hlt := digitIn?_lt hd
      split at h
      · rename_i hle
        obtain ⟨hbound, hmax⟩ := ih h
        refine ⟨hbound.trans_le ?_, fun _ => hmax hle⟩
        have hstep : acc * base + d + 1 ≤ (acc + 1) * base := by
          rw [Nat.add_mul, Nat.one_mul]
          omega
        calc (acc * base + d + 1) * base ^ rest.length
            ≤ (acc + 1) * base * base ^ rest.length := Nat.mul_le_mul_right _ hstep
          _ = (acc + 1) * base ^ (c :: rest).length := by
            rw [List.length_cons, Nat.pow_succ, Nat.mul_assoc, Nat.mul_comm base]
      · cases h

/-- A whole number is bounded by how many characters it is written with, and by what is allowed. -/
theorem readInt_lt {base max : Nat} (hbase : base ≤ 16) {numeral : List Char} {k : Int}
    (h : Numeral.readInt base max numeral = .ok k) :
    0 < numeral.length ∧ k < 128 ^ numeral.length ∧ -(max + 1) ≤ k ∧ k ≤ max := by
  -- What the digits say, with a sign before them or without.
  have hdigits : ∀ (limit : Nat) (excess : Numeral.Fault) (digits : List Char) (n : Nat),
      Numeral.readDigits base limit excess 0 digits = .ok n →
      (n : Int) < 128 ^ digits.length ∧ (n : Int) < 128 ^ (digits.length + 1) ∧ n ≤ limit := by
    intro limit excess digits n hread
    obtain ⟨hlt, hle⟩ := readDigits_lt hread
    rw [Nat.zero_add, Nat.one_mul] at hlt
    have hpow : base ^ digits.length ≤ 128 ^ digits.length := Nat.pow_le_pow_left (by omega) _
    have hmore : 128 ^ digits.length ≤ 128 ^ (digits.length + 1) :=
      Nat.pow_le_pow_right (by decide) (Nat.le_succ _)
    have hshort := hlt.trans_le hpow
    exact ⟨by exact_mod_cast hshort, by exact_mod_cast hshort.trans_le hmore, hle (Nat.zero_le _)⟩
  unfold Numeral.readInt at h
  split at h
  · cases h
  · cases h
  · cases h
  · rename_i digits _
    obtain ⟨n, hread, rfl⟩ := map_eq_ok.1 h
    obtain ⟨-, hlong, hle⟩ := hdigits _ _ _ _ hread
    rw [Int.ofNat_eq_natCast]
    refine ⟨Nat.succ_pos _, hlong, ?_, ?_⟩ <;> omega
  · rename_i digits _
    obtain ⟨n, hread, rfl⟩ := map_eq_ok.1 h
    obtain ⟨-, -, hle⟩ := hdigits _ _ _ _ hread
    rw [Int.ofNat_eq_natCast]
    have hpos : (0 : Int) < 128 ^ (digits.length + 1) := by positivity
    refine ⟨Nat.succ_pos _, ?_, ?_, ?_⟩
    · rw [List.length_cons]
      omega
    · omega
    · omega
  · rename_i hempty _ _ _ _
    obtain ⟨n, hread, rfl⟩ := map_eq_ok.1 h
    obtain ⟨hlt, -, hle⟩ := hdigits _ _ _ _ hread
    rw [Int.ofNat_eq_natCast]
    refine ⟨List.length_pos_iff.2 hempty, hlt, ?_, ?_⟩ <;> omega

/-- The bytes of the varint of a field number that is not negative. -/
def idCost (id : Int32) : Nat :=
  if 0 ≤ id.toInt then (Wire.encodeVarint (Wire.signExtend id)).length else 0

/-- A field number costs no more than the characters that it is written with. -/
theorem idCost_ofInt_le {k : Int} {count : Nat} (hpos : 0 < count) (hlow : -2 ^ 31 ≤ k)
    (hhigh : k < 2 ^ 31) (h : k < 128 ^ count) : idCost (Int32.ofInt k) ≤ count := by
  have hint : (Int32.ofInt k).toInt = k := Int32.toInt_ofInt_of_le hlow hhigh
  have hword := Wire.toNat_signExtend (Int32.ofInt k)
  unfold idCost
  rw [hint] at hword ⊢
  split at hword
  · rename_i hnonneg
    rw [if_pos hnonneg]
    refine Wire.length_varintOfNat_le hpos ?_
    rw [← hword] at h
    exact_mod_cast h
  · rename_i hneg
    rw [if_neg hneg]
    exact Nat.zero_le _

/-- A signed word costs no more than its digits and its sign. -/
theorem idCost_toInt32_le {negative : Bool} {digits : List Char} {base : Nat} {id : Int32}
    (hbase : base ≤ 16) (h : toInt32 negative digits base = .ok id) :
    idCost id ≤ digits.length + if negative then 1 else 0 := by
  unfold toInt32 at h
  simp only at h
  split at h
  · rename_i k hread
    obtain rfl := Except.ok.inj h
    obtain ⟨hpos, hlt, hlow, hhigh⟩ := readInt_lt hbase hread
    have hcost := idCost_ofInt_le hpos (by omega) (by omega) hlt
    cases negative with
    | false => exact hcost
    | true => exact hcost
  · cases h

/-- Every whole number among tokens is in a base of at most sixteen. -/
def ArePlain (tokens : List Token) : Prop := ∀ t ∈ tokens, t.IsPlain

/-- The last of plain tokens are plain. -/
theorem ArePlain.suffix {tokens rest : List Token} (h : ArePlain tokens) (h' : rest <:+ tokens) :
    ArePlain rest :=
  fun t ht => h t (h'.subset ht)

/-- A whole number is taken. -/
theorem takes_readInteger {stop : Option Token.Fault} {tokens rest : List Token} {id : Int32}
    (hplain : ArePlain tokens) (h : readInteger stop tokens = .ok (id, rest)) :
    Takes (idCost id) tokens rest := by
  unfold readInteger at h
  split at h
  · rename_i digits base rest'
    obtain ⟨id', hread, heq⟩ := map_eq_ok.1 h
    obtain ⟨rfl, rfl⟩ := Prod.mk.inj heq
    have hbase : base ≤ 16 := hplain (.integer digits base) List.mem_cons_self
    exact (Takes.cons _ _).mono (idCost_toInt32_le hbase hread)
  · rename_i digits base rest'
    obtain ⟨id', hread, heq⟩ := map_eq_ok.1 h
    obtain ⟨rfl, rfl⟩ := Prod.mk.inj heq
    have hbase : base ≤ 16 :=
      hplain (.integer digits base) (List.mem_cons_of_mem _ List.mem_cons_self)
    have hcost := idCost_toInt32_le hbase hread
    refine ((Takes.cons (.mark '-') _).trans (Takes.cons (.integer digits base) _)).mono ?_
    rw [Token.weight, Token.weight, Nat.add_comm]
    exact hcost
  · cases h
  · cases h

/-- What field numbers cost in the binary form, those that are negative being counted as one
byte. -/
def idsCost (ids : List Int32) : Nat := (ids.map fun id => 1 + idCost id).sum

/-- The elements of a list are taken, each with the mark after it. -/
theorem takes_readElements {stop : Option Token.Fault} {tokens rest : List Token}
    {ids : List Int32} (hplain : ArePlain tokens)
    (h : readElements stop tokens = .ok (ids, rest)) : Takes (idsCost ids) tokens rest := by
  fun_induction readElements stop tokens generalizing ids with
  | case1 => cases h
  | case2 tokens id after hread =>
    obtain ⟨rfl, rfl⟩ := Prod.mk.inj (Except.ok.inj h)
    refine ((takes_readInteger hplain hread).trans (Takes.cons _ _)).mono ?_
    rw [idsCost, List.map_singleton, List.sum_singleton, Token.weight, Nat.add_comm]
  | case3 => cases h
  | case4 tokens id after hread ids' rest' hothers ih =>
    obtain ⟨rfl, rfl⟩ := Prod.mk.inj (Except.ok.inj h)
    have hone := (takes_readInteger hplain hread).trans (Takes.cons _ _)
    have hrest := ih (hplain.suffix hone.isSuffix) hothers
    refine (hone.trans hrest).mono ?_
    rw [idsCost, List.map_cons, List.sum_cons, Token.weight, idsCost, Nat.add_comm 1]
  | case5 => cases h

/-- The numbers of a field are taken. They cost no more than they weigh, but for one byte, which a
number alone has not. -/
theorem takes_readIntegers {stop : Option Token.Fault} {tokens rest : List Token}
    {ids : List Int32} (hplain : ArePlain tokens)
    (h : readIntegers stop tokens = .ok (ids, rest)) : Takes (idsCost ids - 1) tokens rest := by
  unfold readIntegers at h
  split at h
  · obtain ⟨rfl, rfl⟩ := Prod.mk.inj (Except.ok.inj h)
    exact (Takes.cons_suffix _ (List.suffix_cons _ _)).mono (Nat.zero_le _)
  · rename_i rest' _
    have hopening := Takes.cons (.mark '[') rest'
    have helements := takes_readElements (hplain.suffix hopening.isSuffix) h
    -- The opening mark makes up for the byte that is not counted.
    refine (hopening.trans helements).mono ?_
    omega
  · obtain ⟨⟨id, after⟩, hread, heq⟩ := map_eq_ok.1 h
    obtain ⟨rfl, rfl⟩ := Prod.mk.inj heq
    have hone : idsCost [id] - 1 = idCost id := by
      rw [idsCost, List.map_singleton, List.sum_singleton, Nat.add_sub_cancel_left]
    rw [hone]
    exact takes_readInteger hplain hread

/-! ## Strings -/

/-- The strings at the start weigh no less than their bytes. -/
theorem exists_readStrings (tokens : List Token) :
    ∃ taken, tokens = taken ++ (readStrings tokens).2 ∧
      (readStrings tokens).1.length ≤ totalWeight taken := by
  fun_induction readStrings tokens with
  | case1 content rest r ih =>
    obtain ⟨taken, hrest, hweight⟩ := ih
    refine ⟨.string content :: taken, by rw [List.cons_append, ← hrest], ?_⟩
    have hlength : (content ++ r.1).length = content.length + r.1.length := List.length_append
    have hr : r.1.length ≤ totalWeight taken := hweight
    rw [totalWeight, Token.weight, hlength]
    omega
  | case2 => exact ⟨[], rfl, Nat.zero_le _⟩

/-- A text is taken with the quotes of a string. -/
theorem takes_readText {stop : Option Token.Fault} {tokens rest : List Token} {s : String}
    (h : readText stop tokens = .ok (s, rest)) :
    Takes ((Utf8.encode s).length + 2) tokens rest := by
  unfold readText at h
  split at h
  · rename_i content tokens'
    obtain ⟨taken, htokens, hweight⟩ := exists_readStrings tokens'
    simp only at h
    split at h
    · cases h
    · split at h
      · cases h
      · rename_i s' hdecode
        obtain ⟨rfl, rfl⟩ := Prod.mk.inj (Except.ok.inj h)
        -- The bytes of the text are those of the strings.
        obtain ⟨chars, hchars, rfl⟩ := map_eq_ok.1 hdecode
        have hbytes := Utf8.flatMap_encodeChar_of_decodeFrom hchars
        rw [Utf8.encode, String.toList_ofList, hbytes, List.length_append]
        refine ⟨.string content :: taken, ?_, List.cons_ne_nil _ _, ?_⟩
        · rw [List.cons_append, ← htokens]
        rw [totalWeight, Token.weight]
        omega
  · cases h

/-! ## Fields -/

/-- What metadata costs at least in the text form: a class name the name of its field, its quotes
and its bytes, and a field number what it costs in the binary form. -/
def cost (m : Metadata) : Nat :=
  (m.className.map fun name => (Utf8.encode name).length + 11).getD 0 + idsCost m.fieldIds

/-- What a field can be: a class name where there is none yet, field numbers, or the beginning of a
packed message. -/
theorem readField_cases {stop : Option Token.Fault} {m : Metadata} {tokens rest : List Token}
    {step : Step} (h : readField stop m tokens = .ok (step, rest)) :
    ∃ name after value, readName stop tokens = .ok (name, after) ∧
      readColon stop after = .ok value ∧
      ((name = .field "classname" ∧ m.className = none ∧ ∃ s rest',
          readText stop value = .ok (s, rest') ∧ rest = skipSeparator rest' ∧
            step = .field { m with className := some s }) ∨
        (name = .field "field_id" ∧ ∃ ids rest',
          readIntegers stop value = .ok (ids, rest') ∧ rest = skipSeparator rest' ∧
            step = .field { m with fieldIds := m.fieldIds ++ ids }) ∨
        (∃ type, name = .packed type) ∧ rest <:+ value ∧ ∃ ending, step = .opened ending) := by
  unfold readField at h
  obtain ⟨⟨name, after⟩, hname, h⟩ := bind_eq_ok.1 h
  obtain ⟨value, hvalue, h⟩ := bind_eq_ok.1 h
  refine ⟨name, after, value, hname, hvalue, ?_⟩
  split at h
  · obtain ⟨⟨s, rest'⟩, htext, h⟩ := bind_eq_ok.1 h
    simp only at h
    split at h
    · cases h
    · rename_i hnone
      obtain ⟨rfl, rfl⟩ := Prod.mk.inj (Except.ok.inj h)
      have hnone : m.className = none := by simpa using hnone
      exact .inl ⟨rfl, hnone, s, rest', htext, rfl, rfl⟩
  · obtain ⟨⟨ids, rest'⟩, hids, h⟩ := bind_eq_ok.1 h
    obtain ⟨rfl, rfl⟩ := Prod.mk.inj (Except.ok.inj h)
    exact .inr (.inl ⟨rfl, ids, rest', hids, rfl, rfl⟩)
  · cases h
  · cases h
  · split at h
    · split at h
      · obtain ⟨rfl, rfl⟩ := Prod.mk.inj (Except.ok.inj h)
        exact .inr (.inr ⟨⟨_, rfl⟩, List.suffix_cons _ _, _, rfl⟩)
      · obtain ⟨rfl, rfl⟩ := Prod.mk.inj (Except.ok.inj h)
        exact .inr (.inr ⟨⟨_, rfl⟩, List.suffix_cons _ _, _, rfl⟩)
      · cases h
    · cases h

/-- Field numbers cost what those before and those after cost. -/
theorem idsCost_append (ids ids' : List Int32) :
    idsCost (ids ++ ids') = idsCost ids + idsCost ids' := by
  rw [idsCost, List.map_append, List.sum_append, idsCost, idsCost]

/-- A field is taken. What it adds to the metadata costs no more than it weighs. -/
theorem takes_readField {stop : Option Token.Fault} {m : Metadata} {tokens rest : List Token}
    {step : Step} (hplain : ArePlain tokens) (h : readField stop m tokens = .ok (step, rest)) :
    ∃ n, Takes n tokens rest ∧ ∀ m', step = .field m' → m'.cost ≤ m.cost + n := by
  obtain ⟨name, after, value, hname, hvalue, hcases⟩ := readField_cases h
  have hbegin := (takes_readName hname).suffix (suffix_readColon hvalue)
  rcases hcases with ⟨rfl, hnone, s, rest', htext, rfl, rfl⟩ | ⟨rfl, ids, rest', hids, rfl, rfl⟩ |
    ⟨-, hrest, ending, rfl⟩
  · have htake := (hbegin.trans (takes_readText htext)).suffix (suffix_skipSeparator rest')
    refine ⟨_, htake, fun m' hm' => ?_⟩
    obtain rfl := Step.field.inj hm'
    have hweight : (Name.field "classname").weight = 9 := rfl
    have hbefore : m.cost = idsCost m.fieldIds := by
      rw [cost, hnone, Option.map_none, Option.getD_none, Nat.zero_add]
    have hafter : cost { m with className := some s } =
        (Utf8.encode s).length + 11 + idsCost m.fieldIds := rfl
    rw [hweight, hbefore, hafter]
    omega
  · have hids := takes_readIntegers (hplain.suffix hbegin.isSuffix) hids
    have htake := (hbegin.trans hids).suffix (suffix_skipSeparator rest')
    refine ⟨_, htake, fun m' hm' => ?_⟩
    obtain rfl := Step.field.inj hm'
    have hweight : (Name.field "field_id").weight = 8 := rfl
    have hafter : cost { m with fieldIds := m.fieldIds ++ ids } = m.cost + idsCost ids := by
      rw [cost, cost, idsCost_append, Nat.add_assoc]
    rw [hweight, hafter]
    omega
  · refine ⟨_, hbegin.suffix hrest, fun m' hm' => ?_⟩
    cases hm'

/-- A packed message does not end with the text. -/
theorem eq_false_of_atEnd_some {stop : Option Token.Fault} {ending : Char} {tokens : List Token}
    {b : Bool} (h : atEnd stop (some ending) tokens = .ok b) : b = false := by
  unfold atEnd at h
  split at h
  · rename_i hnone
    cases hnone
  · rename_i hnone _
    cases hnone
  · exact (Except.ok.inj h).symm
  · split at h
    · exact (Except.ok.inj h).symm
    · split at h <;> cases h
  · cases h

/-- A packed message is never read to its end. -/
theorem readFields_some_ne_ok {stop : Option Token.Fault} {ending : Char} {m m' : Metadata}
    {tokens : List Token} (hplain : ArePlain tokens) :
    readFields stop (some ending) m tokens ≠ .ok m' := by
  -- Every field takes a token, and leads to one field more of some packed message.
  induction hlength : tokens.length using Nat.strongRecOn generalizing tokens m ending with
  | ind length ih =>
    subst hlength
    intro h
    rw [readFields] at h
    split at h
    · cases h
    · rename_i hend
      cases eq_false_of_atEnd_some hend
    · split at h
      · cases h
      · rename_i step rest hfield
        obtain ⟨n, htake, -⟩ := takes_readField hplain hfield
        rw [if_pos htake.length_lt] at h
        have hrest := hplain.suffix htake.isSuffix
        split at h
        · exact ih _ htake.length_lt hrest rfl h
        · exact ih _ htake.length_lt hrest rfl h

/-- The metadata that fields are read into costs no more than there was and than they weigh. -/
theorem cost_readFields_le {stop : Option Token.Fault} {m m' : Metadata} {tokens : List Token}
    (hplain : ArePlain tokens) (h : readFields stop none m tokens = .ok m') :
    m'.cost ≤ m.cost + totalWeight tokens := by
  induction hlength : tokens.length using Nat.strongRecOn generalizing tokens m with
  | ind length ih =>
    subst hlength
    rw [readFields] at h
    split at h
    · cases h
    · obtain rfl := Except.ok.inj h
      exact Nat.le_add_right _ _
    · split at h
      · cases h
      · rename_i step rest hfield
        obtain ⟨n, htake, hcost⟩ := takes_readField hplain hfield
        have hrest := hplain.suffix htake.isSuffix
        rw [if_pos htake.length_lt] at h
        split at h
        · rename_i m₁
          have hone := hcost m₁ rfl
          have hothers := ih _ htake.length_lt hrest h rfl
          have hweight := htake.add_le
          omega
        · exact absurd h (readFields_some_ne_ok hrest)

/-- Fields that are read to the end of the text begin with the name of one, if there are any. -/
theorem head_of_readFields {stop : Option Token.Fault} {m m' : Metadata} {t : Token}
    {tokens : List Token} (hplain : ArePlain (t :: tokens))
    (h : readFields stop none m (t :: tokens) = .ok m') :
    t = .word "classname".toList ∨ t = .word "field_id".toList := by
  have hmore : atEnd stop none (t :: tokens) = .ok false := rfl
  rw [readFields, hmore] at h
  simp only at h
  split at h
  · cases h
  · rename_i step rest hfield
    obtain ⟨n, htake, -⟩ := takes_readField hplain hfield
    rw [if_pos htake.length_lt] at h
    obtain ⟨name, after, value, hname, -, hcases⟩ := readField_cases hfield
    rcases hcases with ⟨rfl, -⟩ | ⟨rfl, -⟩ | ⟨-, -, ending, rfl⟩
    · exact .inl (head_of_readName hname)
    · exact .inr (head_of_readName hname)
    · exact absurd h (readFields_some_ne_ok (hplain.suffix htake.isSuffix))

/-- The metadata of a text costs no more than the text has bytes. -/
theorem cost_ofText_le {s : List Char} {m : Metadata} (h : ofText s = .ok m) : m.cost ≤ size s := by
  obtain ⟨hweight, hplain⟩ := weight_split_le s
  have hcost := cost_readFields_le hplain h
  have hempty : cost empty = 0 := rfl
  omega

end Metadata

end ColumnarRecords
