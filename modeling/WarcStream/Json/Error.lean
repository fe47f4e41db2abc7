import WarcStream.Bytes
/-!
# Why a text is not JSON

An error has a reason and a position. The position is the number of octets
read when the text turned out to be wrong, given as a line and a column: lines
are counted from one, and the column is the number of octets read since the
last line feed.
-/

namespace WarcStream.Json

/-- What is wrong with a text. -/
inductive Reason where
  /-- The text ends where a value must stand, or inside a word or a number. -/
  | endInValue
  | endInString
  | endInList
  | endInObject
  | expectedValue
  /-- A letter of `true`, `false` or `null` is wrong. -/
  | expectedWord
  | expectedColon
  | expectedListCommaOrEnd
  | expectedObjectCommaOrEnd
  | keyNotString
  | trailingComma
  | trailingCharacters
  | invalidNumber
  /-- The number is larger than every finite binary one. -/
  | numberOutOfRange
  | invalidEscape
  /-- A leading surrogate without the escape of a trailing one behind it. -/
  | unfinishedSurrogate
  | loneSurrogate
  /-- The octets of a string are no UTF-8 text. -/
  | invalidText
  | controlCharacter
  | tooDeep
  deriving DecidableEq, Repr

/-- The wording of a reason. -/
def Reason.message : Reason → String
  | .endInValue => "EOF while parsing a value"
  | .endInString => "EOF while parsing a string"
  | .endInList => "EOF while parsing a list"
  | .endInObject => "EOF while parsing an object"
  | .expectedValue => "expected value"
  | .expectedWord => "expected ident"
  | .expectedColon => "expected `:`"
  | .expectedListCommaOrEnd => "expected `,` or `]`"
  | .expectedObjectCommaOrEnd => "expected `,` or `\x7d`"
  | .keyNotString => "key must be a string"
  | .trailingComma => "trailing comma"
  | .trailingCharacters => "trailing characters"
  | .invalidNumber => "invalid number"
  | .numberOutOfRange => "number out of range"
  | .invalidEscape => "invalid escape"
  | .unfinishedSurrogate => "unexpected end of hex escape"
  | .loneSurrogate => "lone leading surrogate in hex escape"
  | .invalidText => "invalid unicode code point"
  | .controlCharacter => "control character (\\u0000-\\u001F) found while parsing a string"
  | .tooDeep => "recursion limit exceeded"

/-- A reason with its position. -/
structure Error where
  reason : Reason
  line : Nat
  column : Nat
  deriving DecidableEq, Repr

/-- The wording of an error. -/
def Error.message (e : Error) : String :=
  e.reason.message ++ " at line " ++ toString e.line ++ " column " ++ toString e.column

/-- The error `reason` after the octets `read`. -/
def Error.after (read : Bytes) (reason : Reason) : Error :=
  { reason
    line := 1 + read.count Bytes.lineFeed
    column := (read.reverse.takeWhile (· != Bytes.lineFeed)).length }

end WarcStream.Json
