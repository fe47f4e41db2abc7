import WarcStream.Frame.Writer
import WarcStream.Message.Format
import WarcStream.Message.Structured
/-!
# Writing messages

A message becomes the octets of a frame or of an item before the sink is
touched, so a message that is refused leaves nothing behind. What has been
written is flushed.
-/

namespace WarcStream

open Transport

namespace MessageConfig

/-- The JSON text or the CBOR item of a message. -/
def payload (c : MessageConfig) (m : Message) : Except MessageError Bytes :=
  match c.format with
  | .jsonSequence | .jsonLines => m.toPayload c.version
  | .cborSequence => m.toItem c.version

/-- The frame around a payload; an item stands alone. -/
def wrap (c : MessageConfig) (payload : Bytes) : Except FrameError Bytes :=
  match c.format.framing? with
  | some framing => (c.frames framing).encode payload
  | none =>
    if c.limit < payload.length then .error (.tooLarge payload.length c.limit) else .ok payload

/-- The octets that carry a message. -/
def encode (c : MessageConfig) (m : Message) : Except MessageError Bytes := do
  let payload ← c.payload m
  (c.wrap payload).mapError .frame

end MessageConfig

/-- A writer of messages. -/
structure MessageWriter where
  config : MessageConfig
  sink : Sink := {}
  /-- The messages written so far. -/
  written : Nat := 0
  deriving Repr

namespace MessageWriter

/-- Writes one message and flushes. -/
def write (w : MessageWriter) (m : Message) : Except MessageError Unit × MessageWriter :=
  match w.config.encode m with
  | .error e => (.error e, w)
  | .ok octets =>
    match deliver w.sink octets with
    | (.ok (), sink) => (.ok (), { w with sink, written := w.written + 1 })
    | (.error e, sink) => (.error (.frame e), { w with sink })

/-- Flushes. -/
def flush (w : MessageWriter) : Except MessageError Unit × MessageWriter :=
  let (answer, sink) := flushOctets w.sink
  (answer.mapError .frame, { w with sink })

/-- What is reported while one message is written. -/
def writeEvents (w : MessageWriter) (m : Message) : List Log.Event :=
  match w.config.payload m with
  | .error _ => []
  | .ok payload =>
    (match w.config.format.framing? with
      | some framing => FrameWriter.writeEvents ⟨w.config.frames framing, w.sink⟩ payload
      | none => []) ++
    match w.write m with
    | (.error _, _) => []
    | (.ok (), _) =>
      [{ severity := .debug, target := "warcseq_message::writer", message := "wrote message"
         details := [("tag", .text m.tag.name), ("len", .number payload.length),
           ("format", .text w.config.format.name)] }]

end MessageWriter

end WarcStream
