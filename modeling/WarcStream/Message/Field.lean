import WarcStream.Base64
import WarcStream.Decimal.Shortest
import WarcStream.Text.Blank
import WarcStream.Text.Integer
import WarcStream.Text.Quoted
import WarcStream.Text.Utf8
import WarcStream.Value
/-!
# Fields of a message body

A body is an object of named fields, or a list of all of them in their order.
A schema knows the fields; `Schema.entries` checks a body against it and
brings either form to a list of names and values. In an object the first entry
at fault decides the error, before any field that is missing; `requiredField` and
`optionalField` read a field out of what was checked.
-/

namespace WarcStream

/-- What a place in a body expects. -/
inductive Expected where
  | text
  | word32
  | word64
  | sequence
  | pair
  | body (name : String)
  deriving DecidableEq, Repr

/-- The wording of an expectation. -/
def Expected.message : Expected → String
  | .text => "a string"
  | .word32 => "u32"
  | .word64 => "u64"
  | .sequence => "a sequence"
  | .pair => "a tuple of size 2"
  | .body name => "struct " ++ name

/-- Why a body is not one of its message. -/
inductive FieldError where
  /-- A value of another kind. -/
  | wrongKind (found : Value) (expected : Expected)
  /-- An integer outside the range of the field. -/
  | outOfRange (n : Int) (expected : Expected)
  /-- A required field is not there. -/
  | missing (name : String)
  /-- A field that the body does not have. -/
  | unknown (name : String) (known : List String)
  /-- A list that is too short for its `fields` fields, or for a pair. -/
  | tooShort (count : Nat) (expected : Expected) (fields : Nat)
  /-- A list that is too long. -/
  | tooLong (count : Nat)
  /-- A position that is neither a natural number nor a text. -/
  | notPosition
  /-- A position whose text is no natural number. -/
  | notNumeric (text : String)
  /-- Data that is no base64 text. -/
  | base64 (error : Base64.Error)
  deriving DecidableEq, Repr

/-- How a value is named in an error. -/
def Value.describe : Value → String
  | .null => "null"
  | .bool b => "boolean `" ++ (if b then "true" else "false") ++ "`"
  | .number (.natural n) => "integer `" ++ toString n.toNat ++ "`"
  | .number (.negative below) => "integer `-" ++ toString (below.val + 1) ++ "`"
  | .number (.real x) => "floating point `" ++ Decimal.Layout.balanced.render x ++ "`"
  | .string s => "string " ++ Text.quoted s
  | .array _ => "sequence"
  | .object _ => "map"

/-- Names between backquotes, as a choice. -/
def choiceOf : List String → String
  | [] => "there are no fields"
  | [a] => "expected `" ++ a ++ "`"
  | [a, b] => "expected `" ++ a ++ "` or `" ++ b ++ "`"
  | names => "expected one of " ++ ", ".intercalate (names.map fun name => "`" ++ name ++ "`")

/-- The wording of an error. -/
def FieldError.message : FieldError → String
  | .wrongKind found expected =>
    "invalid type: " ++ found.describe ++ ", expected " ++ expected.message
  | .outOfRange n expected =>
    "invalid value: integer `" ++ toString n ++ "`, expected " ++ expected.message
  | .missing name => "missing field `" ++ name ++ "`"
  | .unknown name known => "unknown field `" ++ name ++ "`, " ++ choiceOf known
  | .tooShort count expected fields =>
    "invalid length " ++ toString count ++ ", expected " ++ expected.message ++
      (match expected with
        | .body _ => " with " ++ toString fields ++ (if fields = 1 then " element" else " elements")
        | _ => "")
  | .tooLong count =>
    "invalid length " ++ toString count ++ ", expected fewer elements in array"
  | .notPosition => "data did not match any variant of untagged enum NumberOrString"
  | .notNumeric text => "position " ++ Text.quoted text ++ " is not an unsigned integer"
  | .base64 error => error.message

namespace Value

/-- A text. -/
def readText : Value → Except FieldError String
  | .string s => .ok s
  | v => .error (.wrongKind v .text)

/-- An integer that is not negative and below `bound`. -/
def readNatural (bound : Nat) (expected : Expected) : Value → Except FieldError Nat
  | .number (.natural n) =>
    if n.toNat < bound then .ok n.toNat else .error (.outOfRange n.toNat expected)
  | .number (.negative below) => .error (.outOfRange (-1 - (below.val : Int)) expected)
  | v => .error (.wrongKind v expected)

/-- A number of 32 bits. -/
def readWord32 (v : Value) : Except FieldError UInt32 :=
  (v.readNatural (2 ^ 32) .word32).map UInt32.ofNat

/-- A number of 64 bits. -/
def readWord64 (v : Value) : Except FieldError UInt64 :=
  (v.readNatural (2 ^ 64) .word64).map UInt64.ofNat

/-- A position: a number, or a text that holds one, as some producers send it. -/
def readPosition : Value → Except FieldError UInt64
  | .number (.natural n) => .ok n
  | .string s =>
    match Text.natural? (Text.trim s) with
    | some n => .ok n
    | none => .error (.notNumeric s)
  | _ => .error .notPosition

/-- Octets in base64. -/
def readData (v : Value) : Except FieldError Bytes := do
  let s ← v.readText
  (Base64.decode (Text.bytes s)).mapError .base64

/-- Two texts. -/
def readPair : Value → Except FieldError (String × String)
  | .array [] => .error (.tooShort 0 .pair 2)
  | .array [a] => do
    let _ ← a.readText
    .error (.tooShort 1 .pair 2)
  | .array (a :: b :: rest) => do
    let name ← a.readText
    let value ← b.readText
    if rest.isEmpty then return (name, value) else .error (.tooLong (rest.length + 2))
  | v => .error (.wrongKind v .pair)

/-- Pairs of texts. -/
def readPairs : Value → Except FieldError (List (String × String))
  | .array items => items.mapM readPair
  | v => .error (.wrongKind v .sequence)

/-- A value that may be null. -/
def readOptional {α : Type} (read : Value → Except FieldError α) :
    Value → Except FieldError (Option α)
  | .null => .ok none
  | v => (read v).map some

end Value

/-- A field of a body: its name, and what its values must pass. -/
structure Field where
  name : String
  check : Value → Except FieldError Unit

/-- A field whose values `read` can read. -/
def Field.of {α : Type} (name : String) (read : Value → Except FieldError α) : Field :=
  ⟨name, fun v => (read v).map fun _ => ()⟩

/-- The fields of a body, in their order. -/
structure Schema where
  name : String
  fields : List Field

namespace Schema

/-- The names of the fields. -/
def names (s : Schema) : List String := s.fields.map Field.name

/-- An entry of an object must name a field and pass its check. -/
def checkEntry (s : Schema) (entry : String × Value) : Except FieldError Unit :=
  match s.fields.find? fun field => field.name = entry.1 with
  | some field => field.check entry.2
  | none => .error (.unknown entry.1 s.names)

/-- The items of a list must pass the checks of the fields, one each. `count` fields have
passed. -/
def checkItems (s : Schema) (total : Nat) :
    List Field → List Value → (count : Nat) → Except FieldError Unit
  | [], [], _ => .ok ()
  | [], _ :: _, _ => .error (.tooLong total)
  | _ :: _, [], count => .error (.tooShort count (.body s.name) s.fields.length)
  | field :: fields, v :: rest, count => do
    field.check v
    s.checkItems total fields rest (count + 1)

/-- The names and values of a body whose entries pass. -/
def entries (s : Schema) : Value → Except FieldError (List (String × Value))
  | .object entries => do
    entries.forM s.checkEntry
    return entries
  | .array items => do
    s.checkItems items.length s.fields items 0
    return s.names.zip items
  | v => .error (.wrongKind v (.body s.name))

end Schema

/-- Reads a field that must be there. -/
def requiredField {α : Type} (name : String) (read : Value → Except FieldError α)
    (entries : List (String × Value)) : Except FieldError α :=
  match entries.lookup name with
  | some v => read v
  | none => .error (.missing name)

/-- Reads a field that may be missing or null. -/
def optionalField {α : Type} (name : String) (read : Value → Except FieldError α)
    (entries : List (String × Value)) : Except FieldError (Option α) :=
  match entries.lookup name with
  | some v => v.readOptional read
  | none => .ok none

end WarcStream
