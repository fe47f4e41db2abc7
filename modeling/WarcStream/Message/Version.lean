import WarcStream.Message.Basic
import WarcStream.Text.Blank
import WarcStream.Text.Quoted
/-!
# Protocol versions

The first version knows headers, pieces of blocks and block ends with exactly
a CRC-32C. The second knows every message and makes every checksum optional.
-/

namespace WarcStream

/-- A version of the message set. -/
inductive ProtocolVersion where
  | v1
  | v2
  deriving DecidableEq, Repr, Inhabited

namespace ProtocolVersion

/-- The newest version. -/
def latest : ProtocolVersion := .v2

/-- The number of a version. -/
def number : ProtocolVersion → Nat
  | .v1 => 1
  | .v2 => 2

/-- A version as it is shown. -/
def display (v : ProtocolVersion) : String := toString v.number

/-- The tags of a version. -/
def tags : ProtocolVersion → List Tag
  | .v1 => [.header, .blockChunk, .blockEnd]
  | .v2 => Tag.all

/-- The version has messages with this tag. -/
def supports (v : ProtocolVersion) (tag : Tag) : Bool := v.tags.contains tag

/-- The checksums a block end may carry. -/
def checksumNames : ProtocolVersion → List String
  | .v1 => ["crc32c"]
  | .v2 => ["crc32", "crc32c", "xxh3"]

/-- The version can carry these checksums. -/
def carries (v : ProtocolVersion) (c : Checksums) : Bool :=
  match v with
  | .v1 => c.crc32c.isSome && c.crc32.isNone && c.xxh3.isNone
  | .v2 => true

/-- The version can carry the message without loss. -/
def canRepresent (v : ProtocolVersion) (m : Message) : Bool :=
  v.supports m.tag &&
    match m with
    | .blockEnd c => v.carries c
    | _ => true

/-- The version that a text names: its number, with any number of letters v in front. -/
def ofText? (s : String) : Option ProtocolVersion :=
  match (Text.trimChars s.toList).dropWhile fun c => c == 'v' || c == 'V' with
  | ['1'] => some .v1
  | ['2'] => some .v2
  | _ => none

/-- What is said of a text that names no version. -/
def unknownMessage (s : String) : String :=
  "unknown protocol version " ++ Text.quoted s ++ " (expected 1 or 2)"

end ProtocolVersion

end WarcStream
