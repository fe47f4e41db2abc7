import WarcStream.Cbor.Error
import WarcStream.Frame.Framing
import WarcStream.Json.Error
import WarcStream.Message.Field
import WarcStream.Message.Version
/-!
# What can go wrong with a message

A segment that cannot be decoded is kept whole with the reason; its wording
shows a short preview of it, quoted, so that nothing a peer sent can forge the
text around it.
-/

namespace WarcStream

open Transport

/-- Why a segment or an item is no message. -/
inductive DecodeReason where
  | json (error : Json.Error)
  | cbor (error : Cbor.Error)
  /-- Neither an object with one key nor the bare name of the end of the file. -/
  | notTagged
  | unknownTag (name : String)
  | tagNotInVersion (tag : Tag) (version : ProtocolVersion)
  | fields (tag : Tag) (error : FieldError)
  deriving DecidableEq, Repr

/-- The wording of a reason. -/
def DecodeReason.message : DecodeReason → String
  | .json error => "segment is not valid JSON: " ++ error.message
  | .cbor error => "item is not valid CBOR: " ++ error.message
  | .notTagged => "structured form must be an object with exactly one tag key"
  | .unknownTag name => "unrecognized message tag " ++ Text.quoted name
  | .tagNotInVersion tag version =>
    "message tag " ++ tag.name ++ " is not part of protocol version " ++ version.display
  | .fields tag error => "invalid " ++ tag.name ++ " fields: " ++ error.message

/-- A segment or an item that is no message. -/
structure DecodeError where
  segment : Bytes
  reason : DecodeReason
  deriving DecidableEq, Repr

/-- The characters of a segment that are shown at most. -/
def previewLength : Nat := 64

/-- Octets in hexadecimal with blanks between them. -/
def spacedHex (octets : Bytes) : String :=
  " ".intercalate (octets.map fun b => Bytes.hex [b])

/-- How a segment is shown in an error. -/
def preview (segment : Bytes) : String :=
  let size := "(" ++ toString segment.length ++ " bytes)"
  match Text.ofBytes? segment with
  | none => "<" ++ spacedHex (segment.take (previewLength / 4)) ++ " " ++ size ++ ">"
  | some text =>
    let cs := Text.trimChars text.toList
    if cs.length ≤ previewLength then String.ofList (Text.quoteChars cs)
    else String.ofList (Text.quoteChars (cs.take previewLength)) ++ "... " ++ size

/-- The wording of a decode error. -/
def DecodeError.message (e : DecodeError) : String :=
  "malformed segment " ++ preview e.segment ++ ": " ++ e.reason.message

/-- What can go wrong while messages are read or written. -/
inductive MessageError where
  | frame (error : FrameError)
  | decode (error : DecodeError)
  /-- A message that has no CBOR item, for a reason in words. -/
  | unencodable (reason : String)
  /-- A message that the protocol version cannot carry. -/
  | unrepresentable (tag : Tag) (version : ProtocolVersion)
  deriving DecidableEq, Repr

namespace MessageError

/-- The wording of an error. -/
def message : MessageError → String
  | .frame error => "frame error: " ++ error.message
  | .decode error => "decode error: " ++ error.message
  | .unencodable reason => "failed to serialize message as CBOR: " ++ reason
  | .unrepresentable tag version =>
    tag.name ++ " cannot be represented in protocol version " ++ version.display

/-- The source or the sink failed. -/
def isTransport : MessageError → Bool
  | .frame (.transport _) | .frame .closed => true
  | _ => false

/-- The input is malformed. -/
def isDecode : MessageError → Bool
  | .decode _ => true
  | _ => false

/-- A payload cannot be framed without doubt. -/
def isAmbiguity : MessageError → Bool
  | .frame (.ambiguous _ _) => true
  | _ => false

/-- The source or the sink failed with this fault. -/
def ofFault (f : Fault) : MessageError := .frame (.transport f)

end MessageError

end WarcStream
