import ColumnarRecords.Metadata.Basic
import ColumnarRecords.Metadata.Token
import ColumnarRecords.Text.Numeral

/-!
# The text form of columnar metadata

Fields as names and values: `classname: "a.B" field_id: 1 field_id: [2, -1]`. A comma or semicolon
may follow a field, strings side by side are one string, and a list in brackets stands for as many
fields. Names in brackets are those of extensions, of which there are none, or of a message that is
to be packed, which no field here can hold; so the first such message that ends is a fault, and
nothing after it is read.
-/

namespace ColumnarRecords.Metadata

/-- What may stand where something else was found. -/
inductive Expectation where
  /-- The name of a field. -/
  | fieldName
  /-- What follows a name. -/
  | colonOrMessage
  /-- A whole number. -/
  | integer
  /-- A quoted string. -/
  | string
  /-- What follows an element of a list. -/
  | commaOrBracket
  /-- A part of a name in brackets. -/
  | identifier
  /-- What follows a part of a first name in brackets. -/
  | pointBracketOrSlash
  /-- What follows a part of a second name in brackets. -/
  | pointOrBracket
  /-- The beginning of a message. -/
  | opening
  /-- The end of a message or a field of it. -/
  | closingOrField
deriving DecidableEq, Repr

/-- What is expected, in words. -/
def Expectation.text : Expectation → String
  | .fieldName => "a field name"
  | .colonOrMessage => "':' or a message value"
  | .integer => "an integer"
  | .string => "a string"
  | .commaOrBracket => "',' or ']'"
  | .identifier => "an identifier"
  | .pointBracketOrSlash => "'.', ']' or '/'"
  | .pointOrBracket => "'.' or ']'"
  | .opening => "'\x7b' or '<'"
  | .closingOrField => "'\x7d' or a field name"

/-- Why a text is not the text form of metadata. -/
inductive TextFault where
  /-- There is no token where one is wanted. -/
  | noToken (fault : Token.Fault)
  /-- Something else is wanted; no token is the end of the text. -/
  | expected (what : Expectation) (found : Option Token)
  /-- There is no field of the name. -/
  | noField (name : String)
  /-- There is no extension of the name. -/
  | noExtension (name : String)
  /-- There is no message type of the name. -/
  | noType (name : String)
  /-- A packed message stands where none can. -/
  | notPacked
  /-- The class name comes twice. -/
  | alreadySet
  /-- A whole number does not fit. -/
  | outOfRange (numeral : String)
  /-- The class name is not UTF-8. -/
  | notUtf8
deriving DecidableEq, Repr

/-- The wording of a fault. -/
def TextFault.message : TextFault → String
  | .noToken fault => fault.message
  | .expected what (some token) => s!"expected {what.text}, but found '{token.text}'"
  | .expected what none => s!"expected {what.text}, but reached end of input"
  | .noField name => s!"field '{name}' not found for message '{typeName}'"
  | .noExtension name => s!"extension '{name}' not found for message '{typeName}'"
  | .noType name => s!"message type '{name}' not found"
  | .notPacked =>
    "the field type must be 'google.protobuf.Any' to use Any expansion syntax"
  | .alreadySet => "'classname' is already set"
  | .outOfRange numeral =>
    s!"expected value to be a signed 32-bit integer, but the value {numeral} is out of range"
  | .notUtf8 => "string is not valid utf-8"

/-- The fault of finding the tokens where something else is wanted. After the last token stands
what ended the tokens, the end of the text or a fault. -/
def wanted (stop : Option Token.Fault) (what : Expectation) : List Token → TextFault
  | token :: _ => .expected what (some token)
  | [] =>
    match stop with
    | some fault => .noToken fault
    | none => .expected what none

/-- The name of a field as the text has it. -/
inductive Name where
  /-- A plain name. -/
  | field (name : String)
  /-- The name of an extension. -/
  | extension (name : String)
  /-- The name of the type of a packed message. -/
  | packed (type : String)
deriving DecidableEq, Repr

/-- Words with points between them, and the mark that ends them. -/
def readQualified (stop : Option Token.Fault) (after : Expectation) (marks : List Char) :
    List Token → Except TextFault (List Char × Char × List Token)
  | .word w :: .mark c :: rest =>
    if c = '.' then
      match readQualified stop after marks rest with
      | .error f => .error f
      | .ok (name, ending, rest) => .ok (w ++ '.' :: name, ending, rest)
    else if c ∈ marks then .ok (w, c, rest)
    else .error (.expected after (some (.mark c)))
  | .word _ :: rest => .error (wanted stop after rest)
  | tokens => .error (wanted stop .identifier tokens)

/-- The name of a field. -/
def readName (stop : Option Token.Fault) :
    List Token → Except TextFault (Name × List Token)
  | .word w :: rest => .ok (.field (String.ofList w), rest)
  | .mark '[' :: rest =>
    match readQualified stop .pointBracketOrSlash [']', '/'] rest with
    | .error f => .error f
    | .ok (name, ending, rest) =>
      if ending = ']' then .ok (.extension (String.ofList name), rest)
      else
        match readQualified stop .pointOrBracket [']'] rest with
        | .error f => .error f
        | .ok (type, _, rest) => .ok (.packed (String.ofList type), rest)
  | tokens => .error (wanted stop .fieldName tokens)

/-- Passes the colon after a name, which may be left out before a message. -/
def readColon (stop : Option Token.Fault) : List Token → Except TextFault (List Token)
  | .mark ':' :: rest => .ok rest
  | .mark '\x7b' :: rest => .ok (.mark '\x7b' :: rest)
  | .mark '<' :: rest => .ok (.mark '<' :: rest)
  | tokens => .error (wanted stop .colonOrMessage tokens)

/-- The signed word that digits of a base write. -/
def toInt32 (negative : Bool) (digits : List Char) (base : Nat) : Except TextFault Int32 :=
  let numeral := if negative then '-' :: digits else digits
  match Text.Numeral.readInt base (2 ^ 31 - 1) numeral with
  | .ok n => .ok (Int32.ofInt n)
  | .error _ => .error (.outOfRange (String.ofList numeral))

/-- A whole number with an optional sign before it. -/
def readInteger (stop : Option Token.Fault) : List Token → Except TextFault (Int32 × List Token)
  | .integer digits base :: rest => (toInt32 false digits base).map fun n => (n, rest)
  | .mark '-' :: .integer digits base :: rest =>
    (toInt32 true digits base).map fun n => (n, rest)
  | .mark '-' :: rest => .error (wanted stop .integer rest)
  | tokens => .error (wanted stop .integer tokens)

/-- A whole number leaves fewer tokens than there were. -/
theorem readInteger_length_lt {stop : Option Token.Fault} {tokens rest : List Token} {n : Int32}
    (h : readInteger stop tokens = .ok (n, rest)) : rest.length < tokens.length := by
  unfold readInteger at h
  split at h
  · rename_i digits base r
    cases hn : toInt32 false digits base with
    | error f => simp [hn, Except.map] at h
    | ok k =>
      simp only [hn, Except.map, Except.ok.injEq, Prod.mk.injEq] at h
      rw [← h.2]
      simp
  · rename_i digits base r
    cases hn : toInt32 true digits base with
    | error f => simp [hn, Except.map] at h
    | ok k =>
      simp only [hn, Except.map, Except.ok.injEq, Prod.mk.injEq] at h
      rw [← h.2]
      simp only [List.length_cons]
      omega
  · simp at h
  · simp at h

/-- The elements of a list up to its closing bracket. -/
def readElements (stop : Option Token.Fault) (tokens : List Token) :
    Except TextFault (List Int32 × List Token) :=
  match _h : readInteger stop tokens with
  | .error f => .error f
  | .ok (n, .mark ']' :: rest) => .ok ([n], rest)
  | .ok (n, .mark ',' :: rest) =>
    match readElements stop rest with
    | .error f => .error f
    | .ok (ns, rest) => .ok (n :: ns, rest)
  | .ok (_, rest) => .error (wanted stop .commaOrBracket rest)
termination_by tokens.length
decreasing_by
  have := readInteger_length_lt _h
  simp only [List.length_cons] at this
  omega

/-- The numbers of a field: one, or a list in brackets. -/
def readIntegers (stop : Option Token.Fault) :
    List Token → Except TextFault (List Int32 × List Token)
  | .mark '[' :: .mark ']' :: rest => .ok ([], rest)
  | .mark '[' :: rest => readElements stop rest
  | tokens => (readInteger stop tokens).map fun r => ([r.1], r.2)

/-- The bytes of the strings at the start. -/
def readStrings : List Token → List UInt8 × List Token
  | .string content :: rest =>
    let r := readStrings rest
    (content ++ r.1, r.2)
  | tokens => ([], tokens)

/-- The text of one or more strings. -/
def readText (stop : Option Token.Fault) :
    List Token → Except TextFault (String × List Token)
  | .string content :: tokens =>
    let (more, rest) := readStrings tokens
    match rest, stop with
    | [], some fault => .error (.noToken fault)
    | rest, _ =>
      match Text.Utf8.decode (content ++ more) with
      | .error _ => .error .notUtf8
      | .ok s => .ok (s, rest)
  | tokens => .error (wanted stop .string tokens)

/-- Passes a comma or semicolon. -/
def skipSeparator : List Token → List Token
  | .mark ',' :: rest => rest
  | .mark ';' :: rest => rest
  | tokens => tokens

/-- What a field of the text leads to. -/
inductive Step where
  /-- The metadata with the field. -/
  | field (m : Metadata)
  /-- A packed message has begun, which the mark will end. -/
  | opened (ending : Char)
deriving DecidableEq, Repr

/-- Reads a field, or the beginning of one that holds a packed message. -/
def readField (stop : Option Token.Fault) (m : Metadata) (tokens : List Token) :
    Except TextFault (Step × List Token) := do
  let (name, rest) ← readName stop tokens
  let rest ← readColon stop rest
  match name with
  | .field "classname" =>
    let (s, rest) ← readText stop rest
    if m.className.isSome then .error .alreadySet
    else return (.field { m with className := some s }, skipSeparator rest)
  | .field "field_id" =>
    let (ids, rest) ← readIntegers stop rest
    return (.field { m with fieldIds := m.fieldIds ++ ids }, skipSeparator rest)
  | .field name => .error (.noField name)
  | .extension name => .error (.noExtension name)
  | .packed type =>
    if type = typeName then
      match rest with
      | .mark '\x7b' :: rest => return (.opened '\x7d', rest)
      | .mark '<' :: rest => return (.opened '>', rest)
      | rest => .error (wanted stop .opening rest)
    else .error (.noType type)

/-- Whether the text ends here; it may end outside packed messages only, which the mark that ends
them shows to be misplaced. -/
def atEnd (stop : Option Token.Fault) : (ending : Option Char) → List Token →
    Except TextFault Bool
  | none, [] =>
    match stop with
    | none => .ok true
    | some fault => .error (.noToken fault)
  | none, _ => .ok false
  | some _, .word _ :: _ => .ok false
  | some ending, .mark c :: rest =>
    if c = '[' then .ok false
    else if c = ending then .error .notPacked
    else .error (wanted stop .closingOrField (.mark c :: rest))
  | some _, tokens => .error (wanted stop .closingOrField tokens)

/-- Reads fields up to the end of the text or, in a packed message, up to the mark that ends it. A
field that took no token would end the reading. -/
def readFields (stop : Option Token.Fault) (ending : Option Char) (m : Metadata)
    (tokens : List Token) : Except TextFault Metadata :=
  match atEnd stop ending tokens with
  | .error f => .error f
  | .ok true => .ok m
  | .ok false =>
    match readField stop m tokens with
    | .error f => .error f
    | .ok (step, rest) =>
      if rest.length < tokens.length then
        match step with
        | .field m => readFields stop ending m rest
        | .opened ending => readFields stop (some ending) .empty rest
      else .ok m
termination_by tokens.length

/-- The metadata of which a text is the text form. -/
def ofText (s : List Char) : Except TextFault Metadata :=
  let (tokens, stop) := Token.split s
  readFields stop none .empty tokens

/-- The text form. Parts that say nothing are left out. -/
def toText (m : Metadata) : String :=
  let name : List String :=
    match m.className with
    | none => []
    | some s =>
      ["classname:" ++ String.ofList (Text.Escape.quotedBytes (Text.Utf8.encode s))]
  let ids : List String :=
    if m.fieldIds = [] then []
    else ["field_id:[" ++ ",".intercalate (m.fieldIds.map fun id => toString id.toInt) ++ "]"]
  ",".intercalate (name ++ ids)

/-- Why bytes are neither form of metadata. -/
structure Fault where
  /-- Why they are not the text form: they are not UTF-8, or the text is not. -/
  text : Text.Utf8.Fault ⊕ TextFault
  /-- Why they are not the binary form. -/
  binary : Wire.Layout.LocatedFault
deriving DecidableEq, Repr

/-- The wording of a fault. -/
def Fault.message (f : Fault) : String :=
  let text :=
    match f.text with
    | .inl fault => fault.message
    | .inr fault => fault.message
  s!"neither text format ({text}) nor binary ({f.binary.message})"

/-- The metadata of bytes that are the text form or else the binary form. -/
def parse (bytes : List UInt8) : Except Fault Metadata :=
  let text : Except (Text.Utf8.Fault ⊕ TextFault) Metadata :=
    match Text.Utf8.decodeFrom 0 bytes with
    | .error f => .error (.inl f)
    | .ok s =>
      match ofText s with
      | .error f => .error (.inr f)
      | .ok m => .ok m
  match text with
  | .ok m => .ok m
  | .error textFault =>
    match decode bytes with
    | .ok m => .ok m
    | .error binaryFault => .error ⟨textFault, binaryFault⟩

end ColumnarRecords.Metadata
