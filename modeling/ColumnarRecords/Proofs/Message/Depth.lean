import ColumnarRecords.Proofs.Message.RoundTrip

/-!
# Messages that are nested too deep

Writing a message knows no limit on how deep messages are nested in it, and reading does. The regular
message has a field of its own type, so there are chains of any length of it; a chain longer than the
limit is a message of its type that is written and not decoded (`Message.decode_chain`), by induction
on how much may be nested where a link of it is read.
-/

namespace ColumnarRecords

open Descriptor Wire Message

namespace Sample

/-- The message field of the regular message, which is of its own type. -/
def nested : Field :=
  { field "a.A." "n" 4 (.message 0) .single (.message .empty) with hasPresence := true }

/-- A regular message with as many messages nested in each other inside it. -/
def chain : Nat → Message
  | 0 => .empty
  | depth + 1 => ⟨[(4, .value (.message (chain depth)))]⟩

/-- A chain is a message of the regular type, nested as deep as it is long. -/
theorem isOf_chain {depth limit : Nat} (h : depth ≤ limit) :
    (chain depth).IsOf regular.pool Field.HoldsSome limit 0 := by
  induction depth generalizing limit with
  | zero => cases limit <;> exact conforms_empty
  | succ depth ih =>
    obtain ⟨limit, rfl⟩ : ∃ k, limit = k + 1 := ⟨limit - 1, by omega⟩
    exact conforms_singleton
      ⟨nested, rfl, .single rfl (ih (by omega)), fun _ => ⟨by simp, by simp⟩⟩

/-- A chain is written as the chain inside it with its key and its length. -/
theorem encode_chain (depth : Nat) : (chain (depth + 1)).encode .full regular.pool 0 =
    encodeKey 4 .lengthDelimited ++
      encodeDelimited ((chain depth).encode .full regular.pool 0) := by
  have hfind : (regular.pool.message 0).fields.find? 4 = some nested := rfl
  have hfind' : (regular.pool.message 0).find? 4 = some nested := rfl
  have hset : nested.isSet (.message (chain depth)) = true := by
    simp [Field.isSet, nested, field, Value.isSame]
  have hbodies : (Value.message (chain depth)).bodies .full regular.pool nested.kind =
      [(chain depth).encode .full regular.pool 0] := by
    simp only [nested, field, Value.bodies]
  simp only [chain, Message.encode, encodeEntries, hfind, hfind', Entry.encode, hset, hbodies,
    Option.isSome_some, if_true, Bool.true_eq_false, if_false, List.append_nil]
  rw [Field.encodeTagged_singleton rfl]
  rfl

/-- A chain is longer than the one inside it. -/
theorem length_encode_chain_le (depth : Nat) :
    ((chain depth).encode .full regular.pool 0).length ≤
      ((chain (depth + 1)).encode .full regular.pool 0).length := by
  have hle := length_le_encodeDelimited ((chain depth).encode .full regular.pool 0)
  rw [encode_chain, List.length_append]
  omega

/-- A link of a chain takes four bytes at most, unless the chain is very long. -/
theorem length_encode_chain {depth : Nat} (h : depth ≤ 4096) :
    ((chain depth).encode .full regular.pool 0).length ≤ 4 * depth := by
  induction depth with
  | zero => exact Nat.le_of_eq rfl
  | succ depth ih =>
    have hinner := ih (by omega)
    have hkey : (encodeKey 4 .lengthDelimited).length = 1 := by cbv
    have hcount : (varintOfNat ((chain depth).encode .full regular.pool 0).length).length ≤ 2 :=
      length_varintOfNat_le (by omega) (by omega)
    rw [encode_chain, encodeDelimited, List.length_append, List.length_append, hkey]
    omega

end Sample

namespace Message

/-- The nested field of the regular message is merged by what merges nested messages. -/
theorem readFieldWith_nested (nested : Option FieldReader) (budget : Nat) (m : Message)
    {input : List UInt8} {fault : Wire.Fault}
    (h : ∀ old, readNested nested Sample.nested 0 .lengthDelimited old input = .error fault) :
    readFieldWith Sample.regular.pool nested budget 0 m 4 .lengthDelimited input = .error fault := by
  have hfind : (Sample.regular.pool.message 0).find? 4 = some Sample.nested := rfl
  have hsingle : Sample.nested.arity = .single := rfl
  have hkind : Sample.nested.kind = .message 0 := rfl
  rw [readFieldWith_of_some hfind, readKnown_of_single hsingle, readSingle_of_message hkind]
  simp only [andThen, h]

/-- A chain that is as deep as the limit is nested too deep inside another message, whatever it is
merged into and whatever follows it. -/
theorem readField_chain {budget depth : Nat} (hdepth : budget ≤ depth)
    (hlen : ((Sample.chain depth).encode .full Sample.regular.pool 0).length < 2 ^ 64) (m : Message)
    (rest : List UInt8) :
    Message.readField Sample.regular.pool budget 0 m 4 .lengthDelimited
      (encodeDelimited ((Sample.chain depth).encode .full Sample.regular.pool 0) ++ rest) =
        .error .recursionLimit := by
  induction budget generalizing depth m rest with
  | zero =>
    refine readFieldWith_nested none 0 m fun old => ?_
    rw [readNested_none, expecting]
    rfl
  | succ budget ih =>
    obtain ⟨depth, rfl⟩ : ∃ k, depth = k + 1 := ⟨depth - 1, by omega⟩
    have hshort := Nat.lt_of_le_of_lt (Sample.length_encode_chain_le depth) hlen
    refine readFieldWith_nested _ (budget + 1) m fun old => ?_
    have hloop : whileLonger rest.length (keyed (Message.readField Sample.regular.pool budget 0)) old
        ((Sample.chain (depth + 1)).encode .full Sample.regular.pool 0 ++ rest) =
          .error .recursionLimit := by
      rw [Sample.encode_chain, List.append_assoc]
      refine whileLonger_of_error (local_readField _ budget 0) ⟨by decide, by decide⟩
        (ih (by omega) hshort old rest) ?_
      rw [List.length_append]
      omega
    have hgroup : ¬Sample.nested.isGroup = true := Bool.false_ne_true
    rw [readNested_some, readInside, if_neg hgroup, expecting_self,
      delimited_encodeDelimited_eq _ _ hlen, hloop]

/-- A chain that is nested deeper than the limit is not decoded. -/
theorem decode_chain {depth : Nat} (hdepth : nestingLimit < depth)
    (hlen : ((Sample.chain depth).encode .full Sample.regular.pool 0).length < 2 ^ 64) :
    Message.decode Sample.regular.pool 0 ((Sample.chain depth).encode .full Sample.regular.pool 0) =
      .error .recursionLimit := by
  obtain ⟨depth, rfl⟩ : ∃ k, depth = k + 1 := ⟨depth - 1, by omega⟩
  have hshort := Nat.lt_of_le_of_lt (Sample.length_encode_chain_le depth) hlen
  have hfield := readField_chain (Nat.le_of_lt_succ hdepth) hshort .empty []
  rw [List.append_nil] at hfield
  rw [Message.decode, merge, Sample.encode_chain,
    whileLonger_of_error (local_readField _ nestingLimit 0) ⟨by decide, by decide⟩ hfield
      (Nat.zero_le _)]
  rfl

end Message

end ColumnarRecords
