import WarcStream.Bytes
import WarcStream.Transport.Fault
/-!
# Framing — payloads on the wire

A frame carries one payload of octets. In the record-separated layout it opens
with the record separator and closes with a line feed, and the stream is cut
at the separators; in the line-delimited layout it closes with a line feed,
and the stream is cut there. A payload must not hold an octet that would be
taken for one of these. The size limit of a stream applies to what a reader
gets back, the segment, so that whatever may be written can be read.
-/

namespace WarcStream

open Transport

/-- How frames are laid out on the wire. -/
inductive Framing where
  /-- Every frame opens with the record separator. -/
  | recordSeparated
  /-- Every frame is one line. -/
  | lineDelimited
  deriving DecidableEq, Repr, Inhabited

/-- What can go wrong with a frame. -/
inductive FrameError where
  /-- The transport failed. -/
  | transport (fault : Fault)
  /-- More octets belong to one segment than the limit allows. -/
  | tooLarge (size limit : Nat)
  /-- The payload holds an octet that carries meaning on the wire. -/
  | ambiguous (octet : UInt8) (offset : Nat)
  /-- The sink stopped taking octets before the frame was written. -/
  | closed
  deriving DecidableEq, Repr

/-- The wording of an error. -/
def FrameError.message : FrameError → String
  | .transport fault => "frame I/O error: " ++ fault.message
  | .tooLarge size limit =>
    "frame too large (" ++ toString size ++ " bytes, max " ++ toString limit ++ ")"
  | .ambiguous octet offset =>
    "payload byte 0x" ++ Bytes.hex [octet] ++ " at offset " ++ toString offset ++
      " would be ambiguous on the wire"
  | .closed => "stream closed (incomplete frame written)"

namespace Framing

/-- The octet a stream is cut at. -/
def delimiter : Framing → UInt8
  | .recordSeparated => Bytes.recordSeparator
  | .lineDelimited => Bytes.lineFeed

/-- The octets of a frame around a payload of this length. -/
def frameLength : Framing → Nat → Nat
  | .recordSeparated, n => n + 2
  | .lineDelimited, n => n + 1

/-- The octets of the segment a payload of this length is read back as. A record-separated segment
keeps its line feed, a line loses it with the delimiter. -/
def segmentLength : Framing → Nat → Nat
  | .recordSeparated, n => n + 1
  | .lineDelimited, n => n

/-- An octet that a payload must not hold. -/
def isReserved : Framing → UInt8 → Bool
  | .recordSeparated, b => b == Bytes.recordSeparator || b == Bytes.lineFeed
  | .lineDelimited, b => b == Bytes.lineFeed

/-- Refuses a payload whose segment would exceed the limit. -/
def checkSize (f : Framing) (payloadLength limit : Nat) : Except FrameError Unit :=
  if limit < f.segmentLength payloadLength then
    .error (.tooLarge (f.segmentLength payloadLength) limit)
  else .ok ()

/-- The first reserved octet of a payload, with its offset. -/
def firstReserved? (f : Framing) : Bytes → Option (UInt8 × Nat)
  | [] => none
  | b :: rest =>
    if f.isReserved b then some (b, 0)
    else (f.firstReserved? rest).map fun (c, n) => (c, n + 1)

/-- Refuses a payload that holds a reserved octet. -/
def checkPayload (f : Framing) (payload : Bytes) : Except FrameError Unit :=
  match f.firstReserved? payload with
  | some (b, offset) => .error (.ambiguous b offset)
  | none => .ok ()

/-- The octets in front of a payload. -/
def opening : Framing → Bytes
  | .recordSeparated => [Bytes.recordSeparator]
  | .lineDelimited => []

/-- The frame around a payload, whatever it holds. -/
def frame (f : Framing) (payload : Bytes) : Bytes := f.opening ++ payload ++ [Bytes.lineFeed]

/-- The frame around a payload, unless the payload is ambiguous. -/
def encode (f : Framing) (payload : Bytes) : Except FrameError Bytes := do
  f.checkPayload payload
  return f.frame payload

/-- Appends the frame of a payload to a buffer. A payload that is ambiguous is refused before
anything is appended. -/
def encodeOnto (f : Framing) (payload buffer : Bytes) : Except FrameError Unit × Bytes :=
  match f.checkPayload payload with
  | .error e => (.error e, buffer)
  | .ok () => (.ok (), buffer ++ f.opening ++ payload ++ [Bytes.lineFeed])

/-- A frame has the announced length. -/
theorem length_frame (f : Framing) (payload : Bytes) :
    (f.frame payload).length = f.frameLength payload.length := by
  cases f <;> simp [frame, opening, frameLength]

end Framing

/-- The limits and the layout of a stream of frames. -/
structure FrameConfig where
  framing : Framing := .recordSeparated
  /-- Largest segment, 16 MiB unless set. -/
  limit : Nat := 16 * 1024 * 1024
  /-- Octets asked from a source at a time, 8 KiB unless set. -/
  chunk : Nat := 8 * 1024
  deriving DecidableEq, Repr

/-- Octets asked from a source at a time; never none. -/
def FrameConfig.room (c : FrameConfig) : Nat := max c.chunk 1

end WarcStream
