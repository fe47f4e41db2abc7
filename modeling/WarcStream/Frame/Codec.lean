import WarcStream.Frame.Segmenter
import WarcStream.Frame.Writer
/-!
# Frames in both directions

A frame codec cuts segments out of the octets it is fed and appends the frames
of payloads to a buffer; where the octets come from and go to is left to its
user. It makes the checks of a frame writer in its own order.
-/

namespace WarcStream

/-- A codec of frames. -/
structure FrameCodec where
  config : FrameConfig
  segmenter : Segmenter
  deriving Repr

namespace FrameCodec

/-- A codec with nothing fed to it. -/
def ofConfig (config : FrameConfig) : FrameCodec :=
  { config, segmenter := { framing := config.framing, limit := config.limit } }

/-- Takes in octets. -/
def feed (c : FrameCodec) (octets : Bytes) : FrameCodec :=
  { c with segmenter := c.segmenter.feed octets }

/-- The next segment, if a whole one is at hand. -/
def decode (c : FrameCodec) : Except FrameError (Option Bytes) × FrameCodec :=
  let (answer, segmenter) := c.segmenter.next
  (answer, { c with segmenter })

/-- The next segment at the end of the stream. -/
def decodeEnd (c : FrameCodec) : Except FrameError (Option Bytes) × FrameCodec :=
  let (answer, segmenter) := c.segmenter.last
  (answer, { c with segmenter })

/-- Appends the frame of a payload to a buffer, if the payload is within the limit and not
ambiguous. -/
def encodeOnto (c : FrameCodec) (payload buffer : Bytes) : Except FrameError Unit × Bytes :=
  let framing := c.segmenter.framing
  match framing.checkSize payload.length c.config.limit with
  | .error e => (.error e, buffer)
  | .ok () => framing.encodeOnto payload buffer

/-- The frame of a payload: what is appended to an empty buffer. -/
def encode (c : FrameCodec) (payload : Bytes) : Except FrameError Bytes :=
  match c.encodeOnto payload [] with
  | (.error e, _) => .error e
  | (.ok (), frame) => .ok frame

end FrameCodec

end WarcStream
