import ColumnarRecords.Text.Numeral

/-!
# Arguments

What a command line asks for. An option has a long name after two hyphens and most have a letter
after one. Its value is the next word, or follows in the same word: after an equals sign, and after
the letter also at once. A word that begins with a hyphen and has more after it is no value by
itself. Each option is given once at most; there is nothing else on the line.
-/

namespace ColumnarRecords.CommandLine

/-- An option with a value. -/
inductive ValueOption where
  /-- The column file. -/
  | file
  /-- The file that describes message types. -/
  | descriptorSet
  /-- The name of the message type. -/
  | message
  /-- The directive that selects fields. -/
  | required
  /-- The settings file. -/
  | config
  /-- The largest number of records. -/
  | limit
deriving DecidableEq, Repr

namespace ValueOption

/-- The options. -/
def all : List ValueOption := [file, descriptorSet, message, required, config, limit]

/-- The long name of an option. -/
def long : ValueOption → String
  | file => "file"
  | descriptorSet => "descriptor-set"
  | message => "message"
  | required => "required"
  | config => "config"
  | limit => "limit"

/-- The letter of an option. -/
def letter : ValueOption → Char
  | file => 'f'
  | descriptorSet => 'd'
  | message => 'm'
  | required => 'r'
  | config => 'c'
  | limit => 'l'

/-- The value of the option is a path. -/
def isPath : ValueOption → Bool
  | file | descriptorSet | config => true
  | message | required | limit => false

end ValueOption

/-- What stands on a command line. -/
inductive Item where
  /-- An option with its value. -/
  | value (option : ValueOption) (text : String)
  /-- The option that asks for the plan only. -/
  | plan
deriving DecidableEq, Repr

/-- The parts of a word before and after the first equals sign, if there is one. -/
def splitEquals (word : List Char) : List Char × Option (List Char) :=
  match word.dropWhile (· ≠ '=') with
  | [] => (word, none)
  | _ :: value => (word.takeWhile (· ≠ '='), some value)

/-- An option that begins with a word of the line, with the value if it is in the word. -/
inductive Start where
  /-- An option with a value. -/
  | value (option : ValueOption) (text : Option (List Char))
  /-- The option that asks for the plan only. -/
  | plan
deriving DecidableEq, Repr

/-- The option that a word begins. -/
def readStart? : List Char → Option Start
  | '-' :: '-' :: rest =>
    let (name, value) := splitEquals rest
    match ValueOption.all.find? fun o => o.long.toList == name with
    | some o => some (.value o value)
    | none => if rest = "plan".toList then some .plan else none
  | '-' :: letter :: rest =>
    match ValueOption.all.find? fun o => o.letter == letter with
    | none => none
    | some o =>
      match rest with
      | [] => some (.value o none)
      | '=' :: value => some (.value o (some value))
      | value => some (.value o (some value))
  | _ => none

/-- The word can be a value by itself. -/
def isValue (word : String) : Bool :=
  word.toList.head? != some '-' || word == "-"

/-- What the words of a command line are. Two hyphens may end it. -/
def readItems? : List String → Option (List Item)
  | [] => some []
  | ["--"] => some []
  | word :: rest =>
    match readStart? word.toList with
    | none => none
    | some .plan => (readItems? rest).map (.plan :: ·)
    | some (.value o (some text)) =>
      (readItems? rest).map (.value o (String.ofList text) :: ·)
    | some (.value o none) =>
      match rest with
      | [] => none
      | text :: rest => if isValue text then (readItems? rest).map (.value o text :: ·) else none

/-- The values of an option. -/
def values (o : ValueOption) (items : List Item) : List String :=
  items.filterMap fun item =>
    match item with
    | .value other text => if other = o then some text else none
    | .plan => none

/-- The value of an option that is given once at most; a path is not empty. -/
def value? (o : ValueOption) (items : List Item) : Option (Option String) :=
  match values o items with
  | [] => some none
  | [text] => if o.isPath && text.isEmpty then none else some (some text)
  | _ => none

/-- What a command line asks for. -/
structure Arguments where
  /-- The path of the column file. -/
  file : String
  /-- The path of the file that describes message types. -/
  descriptorSet : String
  /-- The name of the message type. -/
  message : String
  /-- The directive that selects fields, in place of the one of the settings. -/
  required : Option String
  /-- The path of the settings file. -/
  config : Option String
  /-- The largest number of records. -/
  limit : Option Nat
  /-- Only the plan is shown. -/
  plan : Bool
deriving DecidableEq, Repr

/-- The count that a text writes. -/
def readCount? (text : String) : Option Nat :=
  match Text.Numeral.readNat 10 Text.Numeral.maxWord text.toList with
  | .ok n => some n
  | .error _ => none

/-- The count that an optional text writes, if there is one. -/
def readLimit? : Option String → Option (Option Nat)
  | none => some none
  | some text => (readCount? text).map some

/-- What items ask for, if nothing is missing or given twice. -/
def Arguments.ofItems? (items : List Item) : Option Arguments := do
  let file ← (← value? .file items)
  let descriptorSet ← (← value? .descriptorSet items)
  let message ← (← value? .message items)
  let required ← value? .required items
  let config ← value? .config items
  let limit ← readLimit? (← value? .limit items)
  let plans := items.count .plan
  if 1 < plans then none
  else return ⟨file, descriptorSet, message, required, config, limit, plans == 1⟩

/-- What the words of a command line ask for. -/
def Arguments.read? (words : List String) : Option Arguments :=
  (readItems? words).bind ofItems?

end ColumnarRecords.CommandLine
