import WarcStream.Frame.Segmenter
import WarcStream.Transport.Source
import WarcStream.Log.Event
/-!
# Reading frames

A frame reader pulls octets from a source into a segmenter and hands out its
segments. It reads only when no whole segment is at hand, reads again after an
interruption, and never reads past the end of the stream. `remaining` bounds
what is still to come; a segment that is handed out lowers it
(`remaining_next_lt`), so every loop that reads to the end comes to it.
-/

namespace WarcStream

open Transport

/-- A reader of frames. -/
structure FrameReader where
  segmenter : Segmenter
  /-- Octets asked from the source at a time. -/
  room : Nat
  /-- The source has come to its end. -/
  ended : Bool := false
  source : Source
  deriving Repr

namespace FrameReader

/-- A reader with nothing read yet. -/
def ofConfig (c : FrameConfig) (source : Source) : FrameReader :=
  { segmenter := { framing := c.framing, limit := c.limit }
    room := c.room
    source }

/-- Octets that have been read and not been handed out. -/
def buffered (r : FrameReader) : Nat := r.segmenter.buffer.length

/-- Sets the limit for segments to come. -/
def setLimit (r : FrameReader) (limit : Nat) : FrameReader :=
  { r with segmenter := r.segmenter.setLimit limit }

/-- The reader with the source at its end. -/
def close (r : FrameReader) (waiting : Segmenter) (source : Source) : FrameReader :=
  { r with segmenter := waiting, source, ended := true }

/-- Hands out a segment once the source has come to its end. -/
def last (r : FrameReader) : Except FrameError (Option Bytes) × FrameReader :=
  let (answer, segmenter) := r.segmenter.last
  (answer, { r with segmenter })

/-- Hands out the next segment, or nothing at the end of the stream. -/
def next (r : FrameReader) : Except FrameError (Option Bytes) × FrameReader :=
  if r.ended then r.last
  else
    match r.segmenter.next with
    | (.ok none, waiting) =>
      match _h : r.source.read r.room with
      | (.error f, source) =>
        let r' := { r with segmenter := waiting, source }
        if f.isInterruption then r'.next else (.error (.transport f), r')
      | (.ok octets, source) =>
        if _hnone : octets = [] then (r.close waiting source).last
        else next { r with segmenter := waiting.feed octets, source }
    | (answer, segmenter) => (answer, { r with segmenter })
termination_by r.source.weight
decreasing_by
  · exact Source.read_weight_lt_of_error _h
  · exact Source.read_weight_lt_of_ok _h _hnone

/-- A bound on what is still to come. -/
def remaining (r : FrameReader) : Nat := r.buffered + r.source.weight

/-- A segment that is handed out at the end of the source leaves less to come. -/
theorem remaining_last_lt {r : FrameReader} {segment : Bytes}
    (h : r.last.1 = .ok (some segment)) : r.last.2.remaining < r.remaining := by
  have : r.segmenter.last.2.buffer.length < r.segmenter.buffer.length :=
    Segmenter.length_last_lt h
  simp only [last, remaining, buffered]
  omega

/-- A segment that is handed out leaves less to come. -/
theorem remaining_next_lt {r : FrameReader} {segment : Bytes}
    (h : r.next.1 = .ok (some segment)) : r.next.2.remaining < r.remaining := by
  -- along the reads: what a read delivers moves from the source to the buffer
  fun_induction next r with
  | case1 r hended => exact remaining_last_lt h
  | case2 r hended waiting hnext f source hread r' hint ih =>
    have hwaiting := Segmenter.length_next_le r.segmenter
    have hweight := Source.read_weight_lt_of_error hread
    simp only [hnext] at hwaiting
    have := ih h
    simp only [remaining, buffered, r'] at this ⊢
    omega
  | case3 => simp at h
  | case4 r hended waiting hnext source hread =>
    have hwaiting := Segmenter.length_next_le r.segmenter
    have hweight := Source.read_weight_le r.source r.room
    simp only [hnext] at hwaiting
    simp only [hread] at hweight
    have := remaining_last_lt h
    simp only [remaining, buffered, close] at this ⊢
    omega
  | case5 r hended waiting hnext octets source hread hsome ih =>
    have hwaiting := Segmenter.length_next_le r.segmenter
    have hweight := Source.read_weight_add_le hread
    simp only [hnext] at hwaiting
    have := ih h
    simp only [remaining, buffered, Segmenter.feed, List.length_append] at this ⊢
    omega
  | case6 r hended answer segmenter hsome hnext =>
    have hsegment : r.segmenter.next.1 = .ok (some segment) := by rw [hnext]; exact h
    have := Segmenter.length_next_lt hsegment
    simp only [hnext] at this
    simp only [remaining, buffered]
    omega

/-! ## The log -/

/-- The part of the library that cuts segments. -/
def segmenterTarget : String := "warcseq_frame::codec"

/-- The part of the library that reads frames. -/
def readerTarget : String := "warcseq_frame::reader"

/-- What is reported of a blank segment. -/
def blankEvent (length : Nat) : Log.Event :=
  { severity := .trace, target := segmenterTarget, message := "skipped blank segment"
    details := [("len", .number length)] }

/-- What is reported when the segmenter is asked for a segment. -/
def segmenterEvents (s : Segmenter) : List Log.Event :=
  s.dropped.map blankEvent ++
    match s.next.1 with
    | .ok (some segment) =>
      [{ severity := .debug, target := segmenterTarget, message := "segment complete"
         details := [("len", .number segment.length)] }]
    | _ => []

/-- What is reported when the segmenter is asked for a segment at the end of the stream. -/
def lastEvents (s : Segmenter) : List Log.Event :=
  segmenterEvents s ++
    match s.next.1, s.last.1 with
    | .ok none, .ok (some rest) =>
      [{ severity := .debug, target := segmenterTarget, message := "unterminated final segment"
         details := [("len", .number rest.length)] }]
    | _, _ => []

/-- What is reported while the next segment is read. -/
def nextEvents (r : FrameReader) : List Log.Event :=
  if r.ended then lastEvents r.segmenter
  else
    segmenterEvents r.segmenter ++
      match r.segmenter.next with
      | (.ok none, waiting) =>
        match _h : r.source.read r.room with
        | (.error f, source) =>
          if f.isInterruption then nextEvents { r with segmenter := waiting, source } else []
        | (.ok octets, source) =>
          if _hnone : octets = [] then
            { severity := .debug, target := readerTarget
              message := "source reached end of stream"
              details := [("buffered", .number waiting.buffer.length)] } :: lastEvents waiting
          else
            { severity := .trace, target := readerTarget, message := "read chunk"
              details := [("read", .number octets.length)] } ::
              nextEvents { r with segmenter := waiting.feed octets, source }
      | _ => []
termination_by r.source.weight
decreasing_by
  · exact Source.read_weight_lt_of_error _h
  · exact Source.read_weight_lt_of_ok _h _hnone

end FrameReader

end WarcStream
