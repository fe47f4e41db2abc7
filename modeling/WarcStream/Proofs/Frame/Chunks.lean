import WarcStream.Frame.Codec
import WarcStream.Proofs.Frame.Reading
/-!
# A stream in chunks

A codec is fed a stream in chunks and asked for segments until it has none, after
each chunk and at the end: `FrameCodec.run`. A reader of the same chunks is asked
for one segment at a time, and reads the next chunk where the codec would be fed
it: `InStep`. So the reader hands out what the run comes to, with the same first
error (`InStep.handsOut`, `FrameReader.handsOut_run`).
-/

namespace WarcStream

open Transport

/-- A source that delivers these chunks, one a read. -/
def Transport.Source.ofChunks (chunks : List Bytes) : Source := { script := chunks.map .data }

variable {segment chunk : Bytes} {segments chunks : List Bytes}
variable {stop : Option FrameError} {e : FrameError}

namespace FrameCodec

variable {c next : FrameCodec} {ended : Bool}

/-! ## A run of a codec -/

/-- The next segment, before the end of the stream or at it. -/
def attempt (c : FrameCodec) (ended : Bool) : Except FrameError (Option Bytes) × FrameCodec :=
  if ended then c.decodeEnd else c.decode

/-- A segment that is handed out leaves the buffer. -/
theorem length_lt_of_attempt (h : c.attempt ended = (.ok (some segment), next)) :
    next.segmenter.buffer.length < c.segmenter.buffer.length := by
  obtain ⟨hanswer, rfl⟩ := Prod.mk.inj h
  cases ended with
  | true => exact Segmenter.length_last_lt hanswer
  | false => exact Segmenter.length_next_lt hanswer

/-- Before the end of the stream, an answer of the codec is one of its segmenter. -/
theorem segmenter_next_eq {answer : Except FrameError (Option Bytes)}
    (h : c.attempt false = (answer, next)) : c.segmenter.next = (answer, next.segmenter) := by
  obtain ⟨hanswer, hnext⟩ := Prod.mk.inj h
  exact Prod.ext hanswer (congrArg segmenter hnext)

/-- The segments that a codec hands out until it has none at hand, up to the first error. -/
def drain (c : FrameCodec) (ended : Bool) : List Bytes × Option FrameError × FrameCodec :=
  match _h : c.attempt ended with
  | (.error e, next) => ([], some e, next)
  | (.ok none, next) => ([], none, next)
  | (.ok (some segment), next) =>
    let (segments, stop, last) := next.drain ended
    (segment :: segments, stop, last)
termination_by c.segmenter.buffer.length
decreasing_by exact length_lt_of_attempt _h

/-- The segments that a codec hands out when it is fed a stream in chunks, up to the first error. -/
def run (c : FrameCodec) : List Bytes → List Bytes × Option FrameError
  | [] =>
    let (segments, stop, _) := c.drain true
    (segments, stop)
  | chunk :: rest =>
    match (c.feed chunk).drain false with
    | (segments, some e, _) => (segments, some e)
    | (segments, none, next) =>
      let (later, stop) := next.run rest
      (segments ++ later, stop)

/-- The equation of draining. -/
theorem drain_eq (c : FrameCodec) (ended : Bool) :
    c.drain ended =
      match c.attempt ended with
      | (.error e, next) => ([], some e, next)
      | (.ok none, next) => ([], none, next)
      | (.ok (some segment), next) =>
        (segment :: (next.drain ended).1, (next.drain ended).2) := by
  rw [drain]
  generalize c.attempt ended = answer
  obtain ⟨e | found, next⟩ := answer
  · rfl
  · cases found with
    | none => rfl
    | some segment => rfl

theorem drain_of_none (h : c.attempt ended = (.ok none, next)) :
    c.drain ended = ([], none, next) := by
  rw [drain_eq, h]

theorem drain_of_error (h : c.attempt ended = (.error e, next)) :
    c.drain ended = ([], some e, next) := by
  rw [drain_eq, h]

theorem drain_of_segment (h : c.attempt ended = (.ok (some segment), next)) :
    c.drain ended = (segment :: (next.drain ended).1, (next.drain ended).2) := by
  rw [drain_eq, h]

/-- What a codec hands out of its buffer, and then of the chunks that are still to come. -/
def resume (c : FrameCodec) (chunks : List Bytes) : List Bytes × Option FrameError :=
  match c.drain false with
  | (segments, some e, _) => (segments, some e)
  | (segments, none, next) =>
    let (later, stop) := next.run chunks
    (segments ++ later, stop)

theorem run_cons (c : FrameCodec) (chunk : Bytes) (chunks : List Bytes) :
    c.run (chunk :: chunks) = (c.feed chunk).resume chunks := rfl

theorem resume_of_none (h : c.attempt false = (.ok none, next)) :
    c.resume chunks = next.run chunks := by
  rw [resume, drain_of_none h]
  rfl

theorem resume_of_error (h : c.attempt false = (.error e, next)) :
    c.resume chunks = ([], some e) := by
  rw [resume, drain_of_error h]

theorem resume_of_segment (h : c.attempt false = (.ok (some segment), next)) :
    c.resume chunks = (segment :: (next.resume chunks).1, (next.resume chunks).2) := by
  rw [resume, resume, drain_of_segment h]
  generalize next.drain false = drained
  obtain ⟨segments, stop | e, last⟩ := drained
  · rfl
  · rfl

/-- A codec with nothing in its buffer waits for the first chunk. -/
theorem resume_of_empty (hempty : c.segmenter.buffer = []) (hsearched : c.segmenter.searched = 0) :
    c.resume chunks = c.run chunks := by
  have hnone : c.segmenter.framing.delimiter ∉ ([] : Bytes) := List.not_mem_nil
  have hwaits := Segmenter.next_waiting (s := c.segmenter) hnone (Nat.not_lt_zero _)
  have hsame : (c.segmenter.behind []).waiting = c.segmenter := by
    rw [← hempty, Segmenter.behind, Segmenter.waiting, hempty, List.length_nil, ← hsearched,
      ← hempty]
  rw [hsame] at hwaits
  have hattempt : c.attempt false = (.ok none, c) := by
    rw [attempt, if_neg Bool.false_ne_true, decode, hwaits]
  exact resume_of_none hattempt

end FrameCodec

namespace FrameReader

variable {r later : FrameReader} {c next : FrameCodec}

/-! ## What a reader hands out -/

/-- The answer that is no segment: the end of the stream, or an error. -/
def stopAnswer : Option FrameError → Except FrameError (Option Bytes)
  | none => .ok none
  | some e => .error e

/-- **What a reader hands out up to the first answer that is no segment**, which is this error or
the end of the stream. -/
def HandsOut (r : FrameReader) (segments : List Bytes) (stop : Option FrameError) : Prop :=
  r.answers (segments.length + 1) =
    segments.map (fun segment => .ok (some segment)) ++ [stopAnswer stop]

theorem handsOut_nil : r.HandsOut [] stop ↔ r.next.1 = stopAnswer stop := by
  simp [HandsOut, answers]

theorem handsOut_cons :
    r.HandsOut (segment :: segments) stop ↔
      r.next.1 = .ok (some segment) ∧ r.next.2.HandsOut segments stop := by
  rw [HandsOut, List.length_cons, answers, List.map_cons, List.cons_append, List.cons.injEq]
  rfl

/-- Readers whose next calls are the same hand out the same. -/
theorem handsOut_congr (h : r.next = later.next) :
    r.HandsOut segments stop ↔ later.HandsOut segments stop := by
  rw [HandsOut, answers, h]
  rfl

/-! ## A reader and a codec in step -/

/-- The source has ended, and the reader holds what the codec does. -/
structure AtEnd (r : FrameReader) (c : FrameCodec) : Prop where
  segmenter_eq : r.segmenter = c.segmenter
  ended : r.ended = true

/-- The reader holds what the codec does, and is still to read the chunks that the codec is still
to be fed, one a read. -/
structure InStep (r : FrameReader) (c : FrameCodec) (chunks : List Bytes) : Prop where
  segmenter_eq : r.segmenter = c.segmenter
  script_eq : r.source.script = chunks.map .data
  chunks_fit : ∀ chunk ∈ chunks, chunk ≠ [] ∧ chunk.length ≤ r.room
  not_ended : r.ended = false

/-- Both give the same answer at the end of the stream. -/
theorem AtEnd.next_eq (h : r.AtEnd c) :
    ∃ later, r.next = ((c.attempt true).1, later) ∧ later.AtEnd (c.attempt true).2 := by
  refine ⟨r.last.2, ?_, ?_, h.ended⟩
  · rw [next_of_ended h.ended, last, h.segmenter_eq]
    rfl
  · rw [last, h.segmenter_eq]
    rfl

/-- Before the end, both give the same answer where the codec has one, -/
theorem InStep.next_of_answer {answer : Except FrameError (Option Bytes)} (h : r.InStep c chunks)
    (hattempt : c.attempt false = (answer, next)) (hsome : answer ≠ .ok none) :
    ∃ later, r.next = (answer, later) ∧ later.InStep next chunks := by
  have hnext : r.segmenter.next = (answer, next.segmenter) := by
    rw [h.segmenter_eq, FrameCodec.segmenter_next_eq hattempt]
  exact ⟨_, FrameReader.next_of_answer hnext hsome, rfl, h.script_eq, h.chunks_fit, h.not_ended⟩

/-- and where it has none, the reader reads: it meets the end of the stream behind the last chunk, -/
theorem InStep.next_of_end (h : r.InStep c []) (hattempt : c.attempt false = (.ok none, next)) :
    ∃ later, r.next = FrameReader.next later ∧ later.AtEnd next := by
  have hnext : r.segmenter.next = (.ok none, next.segmenter) := by
    rw [h.segmenter_eq, FrameCodec.segmenter_next_eq hattempt]
  have hread : r.source.read r.room = (.ok [], { r.source with reads := r.source.reads + 1 }) := by
    simp [Source.read, h.script_eq]
  have hclosed := FrameReader.next_of_end h.not_ended hnext hread
  exact ⟨_, hclosed.trans (next_of_ended rfl).symm, rfl, rfl⟩

/-- and before that it takes in the chunk that the codec is fed. -/
theorem InStep.next_of_chunk (h : r.InStep c (chunk :: chunks))
    (hattempt : c.attempt false = (.ok none, next)) :
    ∃ later, r.next = FrameReader.next later ∧ later.InStep (next.feed chunk) chunks := by
  have hnext : r.segmenter.next = (.ok none, next.segmenter) := by
    rw [h.segmenter_eq, FrameCodec.segmenter_next_eq hattempt]
  obtain ⟨⟨hsome, hfits⟩, hrest⟩ := List.forall_mem_cons.1 h.chunks_fit
  have hread : r.source.read r.room =
      (.ok chunk, ⟨chunks.map .data, r.source.reads + 1⟩) := by
    rw [Source.read, h.script_eq, List.map_cons]
    exact if_pos hfits
  exact ⟨_, FrameReader.next_of_octets h.not_ended hnext hread hsome, rfl, rfl, hrest, h.not_ended⟩

/-- **At the end of the stream** a reader hands out what the codec does. -/
theorem AtEnd.handsOut (h : r.AtEnd c) : r.HandsOut (c.drain true).1 (c.drain true).2.1 := by
  -- along the segments, each of which leaves the buffer
  induction hn : c.segmenter.buffer.length using Nat.strongRecOn generalizing r c with
  | _ n ih =>
    obtain ⟨later, hnext, hlater⟩ := h.next_eq
    match hattempt : c.attempt true with
    | (.error e, next) =>
      rw [FrameCodec.drain_of_error hattempt, handsOut_nil, hnext, hattempt]
      rfl
    | (.ok none, next) =>
      rw [FrameCodec.drain_of_none hattempt, handsOut_nil, hnext, hattempt]
      rfl
    | (.ok (some segment), next) =>
      have hless := FrameCodec.length_lt_of_attempt hattempt
      rw [hattempt] at hnext hlater
      rw [FrameCodec.drain_of_segment hattempt, handsOut_cons, hnext]
      exact ⟨rfl, ih _ (hn ▸ hless) hlater rfl⟩

/-- **In step with a codec** a reader hands out what the codec does with its buffer and the chunks
that are still to come. -/
theorem InStep.handsOut {r : FrameReader} {c : FrameCodec} {chunks : List Bytes}
    (h : r.InStep c chunks) : r.HandsOut (c.resume chunks).1 (c.resume chunks).2 := by
  match hattempt : c.attempt false with
  | (.error e, next) =>
    obtain ⟨later, hnext, -⟩ := h.next_of_answer hattempt (by simp)
    rw [FrameCodec.resume_of_error hattempt, handsOut_nil, hnext]
    rfl
  | (.ok (some segment), next) =>
    obtain ⟨later, hnext, hlater⟩ := h.next_of_answer hattempt (by simp)
    have hless := FrameCodec.length_lt_of_attempt hattempt
    rw [FrameCodec.resume_of_segment hattempt, handsOut_cons, hnext]
    exact ⟨rfl, hlater.handsOut⟩
  | (.ok none, next) =>
    rw [FrameCodec.resume_of_none hattempt]
    match chunks, h with
    | [], h =>
      obtain ⟨later, hnext, hlater⟩ := h.next_of_end hattempt
      rw [handsOut_congr hnext]
      exact hlater.handsOut
    | chunk :: rest, h =>
      obtain ⟨later, hnext, hlater⟩ := h.next_of_chunk hattempt
      rw [FrameCodec.run_cons, handsOut_congr hnext]
      exact hlater.handsOut
-- a segment leaves the buffer, and a chunk leaves those that are still to come
termination_by (chunks.length, c.segmenter.buffer.length)

/-- **A reader of chunks** hands out what a codec does that is fed them. -/
theorem handsOut_run (config : FrameConfig) (chunks : List Bytes)
    (h : ∀ chunk ∈ chunks, chunk ≠ [] ∧ chunk.length ≤ config.chunk) :
    (ofConfig config (.ofChunks chunks)).HandsOut ((FrameCodec.ofConfig config).run chunks).1
      ((FrameCodec.ofConfig config).run chunks).2 := by
  have hstart : (ofConfig config (.ofChunks chunks)).InStep (FrameCodec.ofConfig config) chunks := by
    refine ⟨rfl, rfl, fun chunk hchunk => ?_, rfl⟩
    obtain ⟨hsome, hlen⟩ := h chunk hchunk
    exact ⟨hsome, Nat.le_trans hlen (Nat.le_max_left config.chunk 1)⟩
  have hhands := hstart.handsOut
  rwa [FrameCodec.resume_of_empty rfl rfl] at hhands

end FrameReader

end WarcStream
