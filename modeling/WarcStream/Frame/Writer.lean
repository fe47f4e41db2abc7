import WarcStream.Frame.Framing
import WarcStream.Transport.Sink
import WarcStream.Log.Event
/-!
# Writing frames

A frame writer checks a payload, builds its whole frame and only then touches
the sink, so a payload that is refused leaves no octet behind. A frame that
has been written is flushed.
-/

namespace WarcStream

open Transport

/-- The frame of a payload that is within the limit and not ambiguous. The size is checked
first. -/
def FrameConfig.encode (c : FrameConfig) (payload : Bytes) : Except FrameError Bytes := do
  c.framing.checkSize payload.length c.limit
  c.framing.encode payload

/-- What a failed write means for a stream of frames. -/
def FrameError.ofWrite : WriteFailure → FrameError
  | .closed => .closed
  | .fault f => .transport f

/-- Writes octets to a sink. -/
def writeOctets (sink : Sink) (octets : Bytes) : Except FrameError Unit × Sink :=
  match sink.writeAll octets with
  | (.error failure, next) => (.error (.ofWrite failure), next)
  | (.ok (), next) => (.ok (), next)

/-- Flushes a sink. -/
def flushOctets (sink : Sink) : Except FrameError Unit × Sink :=
  match sink.flush with
  | (.error f, next) => (.error (.transport f), next)
  | (.ok (), next) => (.ok (), next)

/-- Writes octets to a sink and flushes it. -/
def deliver (sink : Sink) (octets : Bytes) : Except FrameError Unit × Sink :=
  match writeOctets sink octets with
  | (.ok (), next) => flushOctets next
  | failed => failed

/-- A writer of frames. -/
structure FrameWriter where
  config : FrameConfig
  sink : Sink := {}
  deriving Repr

namespace FrameWriter

/-- Sets the limit for payloads to come. -/
def setLimit (w : FrameWriter) (limit : Nat) : FrameWriter :=
  { w with config := { w.config with limit } }

/-- Writes the frame of one payload and flushes. -/
def write (w : FrameWriter) (payload : Bytes) : Except FrameError Unit × FrameWriter :=
  match w.config.encode payload with
  | .error e => (.error e, w)
  | .ok frame =>
    let (answer, sink) := deliver w.sink frame
    (answer, { w with sink })

/-- Flushes. -/
def flush (w : FrameWriter) : Except FrameError Unit × FrameWriter :=
  let (answer, sink) := flushOctets w.sink
  (answer, { w with sink })

/-- What is reported while one payload is written. -/
def writeEvents (w : FrameWriter) (payload : Bytes) : List Log.Event :=
  match w.config.encode payload with
  | .error _ => []
  | .ok frame =>
    match writeOctets w.sink frame with
    | (.error _, _) => []
    | (.ok (), _) =>
      [{ severity := .trace, target := "warcseq_frame::writer", message := "wrote frame"
         details := [("len", .number frame.length)] }]

end FrameWriter

end WarcStream
