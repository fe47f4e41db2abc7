import WarcStream.Frame.Framing
/-!
# Reassembly of segments

A segmenter holds what has arrived of a stream and not yet been handed out. A
segment is everything before the next delimiter, or, at the end of the stream,
everything that is left. Segments of blanks alone are dropped. The search for
a delimiter goes on where the last one stopped, so input that arrives an octet
at a time is searched once. `length_next_lt` says that a segment is handed out
from what has arrived, which bounds every loop over `next`.
-/

namespace WarcStream

/-- What has arrived of a stream and not yet been handed out. -/
structure Segmenter where
  framing : Framing
  /-- Largest segment. -/
  limit : Nat
  /-- This many octets at the front of the buffer are known to hold no delimiter. -/
  searched : Nat := 0
  buffer : Bytes := []
  deriving DecidableEq, Repr

namespace Segmenter

/-- Takes in octets that have arrived. -/
def feed (s : Segmenter) (octets : Bytes) : Segmenter := { s with buffer := s.buffer ++ octets }

/-- Sets the limit for segments to come. -/
def setLimit (s : Segmenter) (limit : Nat) : Segmenter := { s with limit }

/-- The part of the buffer before the first delimiter and the part after it. Only what has not been
searched yet is looked at. -/
def cut? (s : Segmenter) : Option (Bytes × Bytes) :=
  (Bytes.splitAt? s.framing.delimiter (s.buffer.drop s.searched)).map fun (before, after) =>
    (s.buffer.take s.searched ++ before, after)

/-- What is after a delimiter is shorter than the whole. -/
theorem length_lt_of_splitAt? {d : UInt8} {bs before after : Bytes}
    (h : Bytes.splitAt? d bs = some (before, after)) : after.length < bs.length := by
  induction bs generalizing before with
  | nil => simp [Bytes.splitAt?] at h
  | cons b rest ih =>
    unfold Bytes.splitAt? at h
    split at h
    · simp only [Option.some.injEq, Prod.mk.injEq] at h
      simp [h.2]
    · simp only [Option.map_eq_some_iff, Prod.mk.injEq, Prod.exists] at h
      obtain ⟨x, y, hxy, -, rfl⟩ := h
      have := ih hxy
      simp only [List.length_cons]
      omega

/-- What is after the first delimiter is shorter than the buffer. -/
theorem length_lt_of_cut? {s : Segmenter} {before after : Bytes}
    (h : s.cut? = some (before, after)) : after.length < s.buffer.length := by
  simp only [cut?, Option.map_eq_some_iff, Prod.mk.injEq, Prod.exists] at h
  obtain ⟨x, y, hxy, -, rfl⟩ := h
  have := length_lt_of_splitAt? hxy
  simp only [List.length_drop] at this
  omega

/-- Hands out the next segment that is not blank, if a whole one has arrived. An oversized segment
is dropped with its delimiter; one without a delimiter yet stays. -/
def next (s : Segmenter) : Except FrameError (Option Bytes) × Segmenter :=
  match _h : s.cut? with
  | none =>
    let waiting := { s with searched := s.buffer.length }
    if s.limit < s.buffer.length then (.error (.tooLarge s.buffer.length s.limit), waiting)
    else (.ok none, waiting)
  | some (segment, after) =>
    let rest := { s with searched := 0, buffer := after }
    -- a whole run of blanks is dropped whatever its size
    if Bytes.allBlank segment then rest.next
    else if s.limit < segment.length then (.error (.tooLarge segment.length s.limit), rest)
    else (.ok (some segment), rest)
termination_by s.buffer.length
decreasing_by exact length_lt_of_cut? _h

/-- Hands out the next segment at the end of the stream, where what is left is one. -/
def last (s : Segmenter) : Except FrameError (Option Bytes) × Segmenter :=
  match s.next with
  | (.ok none, waiting) =>
    let rest := waiting.buffer
    let empty := { waiting with searched := 0, buffer := [] }
    if Bytes.allBlank rest then (.ok none, empty) else (.ok (some rest), empty)
  | answer => answer

/-- The lengths of the blank segments that `next` drops. -/
def dropped (s : Segmenter) : List Nat :=
  match _h : s.cut? with
  | none => []
  | some (segment, after) =>
    if Bytes.allBlank segment then
      segment.length :: dropped { s with searched := 0, buffer := after }
    else []
termination_by s.buffer.length
decreasing_by exact length_lt_of_cut? _h

/-- Handing out never adds to the buffer. -/
theorem length_next_le (s : Segmenter) : s.next.2.buffer.length ≤ s.buffer.length := by
  fun_induction next s with
  | case1 => exact Nat.le_refl _
  | case2 => exact Nat.le_refl _
  | case3 s segment after h rest hblank ih =>
    exact Nat.le_trans ih (Nat.le_of_lt (length_lt_of_cut? h))
  | case4 s segment after h => exact Nat.le_of_lt (length_lt_of_cut? h)
  | case5 s segment after h => exact Nat.le_of_lt (length_lt_of_cut? h)

/-- A segment that is handed out leaves the buffer. -/
theorem length_next_lt {s : Segmenter} {segment : Bytes} (h : s.next.1 = .ok (some segment)) :
    s.next.2.buffer.length < s.buffer.length := by
  fun_induction next s with
  | case1 => simp at h
  | case2 => simp at h
  | case3 s segment after hcut rest hblank ih =>
    exact Nat.lt_trans (ih h) (length_lt_of_cut? hcut)
  | case4 => simp at h
  | case5 s segment after hcut => exact length_lt_of_cut? hcut

/-- A segment that is handed out at the end of the stream leaves the buffer. -/
theorem length_last_lt {s : Segmenter} {segment : Bytes} (h : s.last.1 = .ok (some segment)) :
    s.last.2.buffer.length < s.buffer.length := by
  have hle := length_next_le s
  unfold last at h ⊢
  split at h
  · rename_i waiting hnext
    rw [hnext] at hle
    simp only at h hle ⊢
    split at h
    · simp at h
    · rename_i hblank
      have : 0 < waiting.buffer.length := by
        cases hb : waiting.buffer with
        | nil => simp [hb, Bytes.allBlank] at hblank
        | cons => simp
      simp only [hblank]
      simp only [Bool.false_eq_true, if_false, List.length_nil]
      omega
  · exact length_next_lt h

end Segmenter

end WarcStream
