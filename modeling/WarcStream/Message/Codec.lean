import WarcStream.Frame.Codec
import WarcStream.Message.Writer
/-!
# Messages in both directions

A message codec decodes messages from the octets it is fed and appends the
octets of messages to a buffer; where the octets come from and go to is left to
its user. A CBOR item is read from the front of the buffer each time until it is
whole, and it is appended as it is, without a frame.
-/

namespace WarcStream

/-- A codec of messages. -/
structure MessageCodec where
  config : MessageConfig
  /-- What has arrived and not been decoded. -/
  segmenter : Segmenter
  deriving Repr

namespace MessageCodec

/-- A codec with nothing fed to it. -/
def ofConfig (config : MessageConfig) : MessageCodec :=
  { config
    segmenter :=
      { framing := config.format.framing?.getD .recordSeparated
        limit := config.limit } }

/-- Takes in octets. -/
def feed (c : MessageCodec) (octets : Bytes) : MessageCodec :=
  { c with segmenter := c.segmenter.feed octets }

/-- Octets that have been fed and not been decoded. -/
def buffered (c : MessageCodec) : Nat := c.segmenter.buffer.length

/-- The codec with another buffer. -/
def withBuffer (c : MessageCodec) (buffer : Bytes) : MessageCodec :=
  { c with segmenter := { c.segmenter with buffer } }

/-- The message of a segment that was cut, if one was. -/
def ofCut (version : ProtocolVersion) :
    Except FrameError (Option Bytes) → Except MessageError (Option Message)
  | .error e => .error (.frame e)
  | .ok none => .ok none
  | .ok (some segment) => ((Message.ofSegment version segment).mapError .decode).map some

/-- The message of the item at the front of the buffer, if it is whole. An item that is wrong or
too large is dropped. -/
def nextItem (version : ProtocolVersion) (limit : Nat) (buffer : Bytes) :
    Except MessageError (Option Message) × Bytes :=
  if buffer.isEmpty then (.ok none, buffer)
  else
    match Cbor.State.start.run buffer with
    | (.unfinished, _) =>
      if limit < buffer.length then (.error (.frame (.tooLarge buffer.length limit)), buffer)
      else (.ok none, buffer)
    | (outcome, rest) =>
      let item := buffer.take (buffer.length - rest.length)
      if limit < item.length then (.error (.frame (.tooLarge item.length limit)), rest)
      else
        match outcome with
        | .done v =>
          let m := (Message.ofStructured version v).mapError fun reason => .decode ⟨item, reason⟩
          (m.map some, rest)
        | .failed e => (.error (.decode ⟨item, .cbor e⟩), rest)
        | .unfinished => (.ok none, rest)

/-- The message of the item at the front of the buffer at the end of the stream, where what is left
of an item is cut short. -/
def lastItem (version : ProtocolVersion) (limit : Nat) (buffer : Bytes) :
    Except MessageError (Option Message) × Bytes :=
  match nextItem version limit buffer with
  | (.ok none, rest) =>
    if rest.isEmpty then (.ok none, rest)
    else (.error (.decode ⟨rest, .cbor .truncated⟩), [])
  | answer => answer

/-- The next message, if a whole one is at hand. -/
def decode (c : MessageCodec) : Except MessageError (Option Message) × MessageCodec :=
  match c.config.format with
  | .cborSequence =>
    let (answer, rest) := nextItem c.config.version c.config.limit c.segmenter.buffer
    (answer, c.withBuffer rest)
  | .jsonSequence | .jsonLines =>
    let (answer, segmenter) := c.segmenter.next
    (ofCut c.config.version answer, { c with segmenter })

/-- The next message at the end of the stream. -/
def decodeEnd (c : MessageCodec) : Except MessageError (Option Message) × MessageCodec :=
  match c.config.format with
  | .cborSequence =>
    let (answer, rest) := lastItem c.config.version c.config.limit c.segmenter.buffer
    (answer, c.withBuffer rest)
  | .jsonSequence | .jsonLines =>
    let (answer, segmenter) := c.segmenter.last
    (ofCut c.config.version answer, { c with segmenter })

/-- The codec of the frames around the messages. -/
def frames (c : MessageCodec) : FrameCodec :=
  { config := c.config.frames c.segmenter.framing, segmenter := c.segmenter }

/-- Appends the octets that carry a message to a buffer. -/
def encodeOnto (c : MessageCodec) (m : Message) (buffer : Bytes) :
    Except MessageError Unit × Bytes :=
  match c.config.format with
  | .cborSequence =>
    match m.toItem c.config.version with
    | .error e => (.error e, buffer)
    | .ok item =>
      if c.config.limit < item.length then
        (.error (.frame (.tooLarge item.length c.config.limit)), buffer)
      else (.ok (), buffer ++ item)
  | .jsonSequence | .jsonLines =>
    match m.toPayload c.config.version with
    | .error e => (.error e, buffer)
    | .ok payload =>
      let (answer, buffer) := c.frames.encodeOnto payload buffer
      (answer.mapError .frame, buffer)

/-- The octets that carry a message: what is appended to an empty buffer. -/
def encode (c : MessageCodec) (m : Message) : Except MessageError Bytes :=
  match c.encodeOnto m [] with
  | (.error e, _) => .error e
  | (.ok (), octets) => .ok octets

end MessageCodec

end WarcStream
