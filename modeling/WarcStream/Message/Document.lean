import WarcStream.Base64
import WarcStream.Text.Utf8
import WarcStream.Message.Version
import WarcStream.Value
/-!
# Messages as values

A message is written as an object with one key, its tag, and under it an
object of its fields. Octets stand as base64 text, and an absent checksum is
left out.
-/

namespace WarcStream

/-- The base64 text of octets. -/
def base64Text (data : Bytes) : String :=
  String.ofList ((Base64.encode data).map Char.ofUInt8)

/-- A field that is left out when it is absent. -/
def optionalEntry (name : String) : Option UInt64 → List (String × Value)
  | none => []
  | some n => [(name, .natural n)]

/-- The checksums that are there. -/
def Checksums.entries (c : Checksums) : List (String × Value) :=
  optionalEntry "crc32" (c.crc32.map UInt32.toUInt64) ++
    optionalEntry "crc32c" (c.crc32c.map UInt32.toUInt64) ++ optionalEntry "xxh3" c.xxh3

/-- A header field as a pair. -/
def headerPair (field : String × String) : Value := .array [.string field.1, .string field.2]

namespace Message

/-- The fields of a message. -/
def entries : Message → List (String × Value)
  | .metadata m => [("file", .string m.file), ("position", .natural m.position)]
  | .header h => [("version", .string h.version), ("fields", .array (h.fields.map headerPair))]
  | .blockChunk data => [("data", .string (base64Text data))]
  | .blockEnd c => c.entries
  | .endOfFile => []

/-- The message with its fields in the order they are written. -/
def document (m : Message) : Value := .object [(m.tag.name, .object m.entries)]

/-- The message as a value with its fields in the order of their names. -/
def toStructured (m : Message) : Value := m.document.sorted

end Message

end WarcStream
