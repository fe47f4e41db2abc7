import WarcStream.Cbor.Encoder
import WarcStream.Cbor.Parser
import WarcStream.Json.Parser
import WarcStream.Json.Printer
import WarcStream.Message.Document
import WarcStream.Message.Error
/-!
# Messages from values and back

A value is a message when it is an object whose one key is a tag of the
protocol version and whose body has the fields of that tag. The end of the
file may also stand as its bare name. A segment is the JSON text of such a
value, an item its CBOR.
-/

namespace WarcStream

namespace Metadata

/-- The body of a location. -/
def schema : Schema :=
  { name := "Metadata"
    fields := [.of "file" Value.readText, .of "position" Value.readPosition] }

/-- The location in a body. -/
def ofBody (body : Value) : Except FieldError Metadata := do
  let entries ← schema.entries body
  let file ← requiredField "file" Value.readText entries
  let position ← requiredField "position" Value.readPosition entries
  return { file, position }

end Metadata

namespace Header

/-- The body of a header. -/
def schema : Schema :=
  { name := "Header"
    fields := [.of "version" Value.readText, .of "fields" Value.readPairs] }

/-- The header in a body. -/
def ofBody (body : Value) : Except FieldError Header := do
  let entries ← schema.entries body
  let version ← requiredField "version" Value.readText entries
  let fields ← requiredField "fields" Value.readPairs entries
  return { version, fields }

end Header

/-- The body of a piece of a block. -/
def blockChunkSchema : Schema :=
  { name := "BlockChunk", fields := [.of "data" Value.readData] }

/-- The octets in the body of a piece of a block. -/
def blockDataOfBody (body : Value) : Except FieldError Bytes := do
  let entries ← blockChunkSchema.entries body
  requiredField "data" Value.readData entries

namespace Checksums

/-- The body of a block end in the first version. -/
def requiredSchema : Schema :=
  { name := "BlockEndV1", fields := [.of "crc32c" Value.readWord32] }

/-- The body of a block end. -/
def schema : Schema :=
  { name := "BlockEnd"
    fields :=
      [.of "crc32" (Value.readOptional Value.readWord32),
        .of "crc32c" (Value.readOptional Value.readWord32),
        .of "xxh3" (Value.readOptional Value.readWord64)] }

/-- The checksums in a body. -/
def ofBody (version : ProtocolVersion) (body : Value) : Except FieldError Checksums :=
  match version with
  | .v1 => do
    let entries ← requiredSchema.entries body
    let crc32c ← requiredField "crc32c" Value.readWord32 entries
    return { crc32c := some crc32c }
  | .v2 => do
    let entries ← schema.entries body
    let crc32 ← optionalField "crc32" Value.readWord32 entries
    let crc32c ← optionalField "crc32c" Value.readWord32 entries
    let xxh3 ← optionalField "xxh3" Value.readWord64 entries
    return { crc32, crc32c, xxh3 }

end Checksums

/-- The body of a message without fields. -/
def emptySchema : Schema := { name := "EmptyBody", fields := [] }

namespace Message

/-- The message of a tag with a body. -/
def ofBody (version : ProtocolVersion) (body : Value) : Tag → Except FieldError Message
  | .metadata => (Metadata.ofBody body).map .metadata
  | .header => (Header.ofBody body).map .header
  | .blockChunk => (blockDataOfBody body).map .blockChunk
  | .blockEnd => (Checksums.ofBody version body).map .blockEnd
  | .endOfFile => (emptySchema.entries body).map fun _ => .endOfFile

/-- The message of a name with a body. -/
def ofTagged (version : ProtocolVersion) (name : String) (body : Value) :
    Except DecodeReason Message :=
  match Tag.ofName? name with
  | none => .error (.unknownTag name)
  | some tag =>
    if version.supports tag then (ofBody version body tag).mapError (.fields tag)
    else .error (.tagNotInVersion tag version)

/-- The message that a value stands for. -/
def ofStructured (version : ProtocolVersion) : Value → Except DecodeReason Message
  | .object [(name, body)] => ofTagged version name body
  | .string name =>
    if name = Tag.endOfFile.name then ofTagged version name (.object []) else .error .notTagged
  | _ => .error .notTagged

/-- The message of a segment, a JSON text. -/
def ofSegment (version : ProtocolVersion) (segment : Bytes) : Except DecodeError Message :=
  match Json.parse segment with
  | .error e => .error ⟨segment, .json e⟩
  | .ok v => (ofStructured version v).mapError fun reason => ⟨segment, reason⟩

/-- The message of a CBOR item. -/
def ofItem (version : ProtocolVersion) (item : Bytes) : Except DecodeError Message :=
  match Cbor.parse item with
  | .error e => .error ⟨item, .cbor e⟩
  | .ok v => (ofStructured version v).mapError fun reason => ⟨item, reason⟩

/-- The message, if the version can carry it. -/
def checkRepresentable (version : ProtocolVersion) (m : Message) : Except MessageError Unit :=
  if version.canRepresent m then .ok () else .error (.unrepresentable m.tag version)

/-- The JSON text of a message, on one line. -/
def toPayload (version : ProtocolVersion) (m : Message) : Except MessageError Bytes := do
  m.checkRepresentable version
  return Json.print m.document

/-- The CBOR item of a message. -/
def toItem (version : ProtocolVersion) (m : Message) : Except MessageError Bytes := do
  m.checkRepresentable version
  return Cbor.encode m.document

end Message

end WarcStream
