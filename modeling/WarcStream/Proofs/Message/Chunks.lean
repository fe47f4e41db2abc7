import WarcStream.Proofs.Frame.Chunks
import WarcStream.Proofs.Message.Buffered
/-!
# Messages from a stream in chunks

In the formats with a framing, a message codec and a message reader both decode
the segments that their frames hand out, up to the first that is no message:
`Message.ofSegments`. A codec of messages comes to that of the segments that a
codec of frames hands out (`MessageCodec.run_eq`), a reader to that of those of
its frame reader (`MessageReader.yields_of_handsOut`). Since the frames agree,
chunk by chunk, so do the messages (`codecs_agree_with_readers`).
-/

namespace WarcStream

open Transport

variable {version : ProtocolVersion} {segment : Bytes} {segments xs ys chunks : List Bytes}
variable {stop : Option FrameError} {m : Message} {ms : List Message} {e : MessageError}

/-! ## Segments -/

/-- What segments come to that are handed out up to an error or to the end: the messages of the
segments up to the first that is none, and the first error. -/
def Message.ofSegments (version : ProtocolVersion) (stop : Option FrameError) :
    List Bytes → List Message × Option MessageError
  | [] => ([], stop.map .frame)
  | segment :: rest =>
    match ofSegment version segment with
    | .error e => ([], some (.decode e))
    | .ok m =>
      let (ms, last) := ofSegments version stop rest
      (m :: ms, last)

namespace Message

theorem ofSegments_of_error {e : DecodeError} (h : ofSegment version segment = .error e) :
    ofSegments version stop (segment :: segments) = ([], some (.decode e)) := by
  rw [ofSegments, h]

theorem ofSegments_of_message (h : ofSegment version segment = .ok m) :
    ofSegments version stop (segment :: segments) =
      (m :: (ofSegments version stop segments).1, (ofSegments version stop segments).2) := by
  rw [ofSegments, h]

/-- Where the segments stop at an error, so do the messages, there or before. -/
theorem ofSegments_of_some (version : ProtocolVersion) (e : FrameError) (segments : List Bytes) :
    ∃ ms e', ofSegments version (some e) segments = (ms, some e') := by
  induction segments with
  | nil => exact ⟨[], .frame e, rfl⟩
  | cons segment segments ih =>
    cases hsegment : ofSegment version segment with
    | error e' => exact ⟨[], .decode e', ofSegments_of_error hsegment⟩
    | ok m =>
      obtain ⟨ms, e', hrest⟩ := ih
      exact ⟨m :: ms, e', by rw [ofSegments_of_message hsegment, hrest]⟩

/-- Behind segments that are all messages, the next segments are decoded, -/
theorem ofSegments_append (h : ofSegments version none xs = (ms, none)) :
    ofSegments version stop (xs ++ ys) =
      (ms ++ (ofSegments version stop ys).1, (ofSegments version stop ys).2) := by
  induction xs generalizing ms with
  | nil =>
    cases h
    rfl
  | cons segment xs ih =>
    cases hsegment : ofSegment version segment with
    | error e =>
      rw [ofSegments_of_error hsegment] at h
      cases h
    | ok m =>
      rw [ofSegments_of_message hsegment] at h
      obtain ⟨rfl, hrest⟩ := Prod.mk.inj h
      rw [List.cons_append, ofSegments_of_message hsegment, ih (Prod.ext rfl hrest)]
      rfl

/-- and behind one that is none, nothing is. -/
theorem ofSegments_append_of_error (h : ofSegments version none xs = (ms, some e)) :
    ofSegments version stop (xs ++ ys) = (ms, some e) := by
  induction xs generalizing ms with
  | nil => cases h
  | cons segment xs ih =>
    cases hsegment : ofSegment version segment with
    | error e' =>
      rw [ofSegments_of_error hsegment] at h
      rw [List.cons_append, ofSegments_of_error hsegment, h]
    | ok m =>
      rw [ofSegments_of_message hsegment] at h
      obtain ⟨rfl, hrest⟩ := Prod.mk.inj h
      rw [List.cons_append, ofSegments_of_message hsegment, ih (Prod.ext rfl hrest)]

end Message

/-! ## The codec -/

namespace MessageCodec

variable {c : MessageCodec} {frames : FrameCodec} {ended : Bool}

/-- The codecs hold the same, and the messages stand in frames. -/
structure Over (c : MessageCodec) (frames : FrameCodec) : Prop where
  segmenter_eq : c.segmenter = frames.segmenter
  framed : c.config.format ≠ .cborSequence

/-- An answer of a codec is what that of its frames means. -/
theorem Over.attempt_eq (h : c.Over frames) (ended : Bool) :
    c.attempt ended =
      (ofCut c.config.version (frames.attempt ended).1,
        { c with segmenter := (frames.attempt ended).2.segmenter }) := by
  have hframed := h.framed
  unfold attempt decode decodeEnd FrameCodec.attempt FrameCodec.decode FrameCodec.decodeEnd
  rw [h.segmenter_eq]
  cases hformat : c.config.format with
  | cborSequence => exact absurd hformat hframed
  | jsonSequence | jsonLines => cases ended <;> rfl

/-- The codecs go on together. -/
theorem Over.next (h : c.Over frames) (next : FrameCodec) :
    Over { c with segmenter := next.segmenter } next :=
  ⟨rfl, h.framed⟩

/-- **A codec of messages hands out** the messages of the segments that its frames do. Unless it
stops at one of them, the codecs go on together. -/
theorem Over.drain_eq (h : c.Over frames) (ended : Bool) :
    ∃ last, c.drain ended =
        ((Message.ofSegments c.config.version (frames.drain ended).2.1 (frames.drain ended).1).1,
          (Message.ofSegments c.config.version (frames.drain ended).2.1 (frames.drain ended).1).2,
          last) ∧
      ((c.drain ended).2.1 = none → last.Over (frames.drain ended).2.2 ∧
        last.config = c.config) := by
  -- along the segments, each of which leaves the buffer
  induction hn : frames.segmenter.buffer.length using Nat.strongRecOn generalizing c frames with
  | _ n ih =>
    have hattempt := h.attempt_eq ended
    match hframes : frames.attempt ended with
    | (.error e, next) =>
      rw [hframes] at hattempt
      rw [drain_of_error hattempt, FrameCodec.drain_of_error hframes]
      exact ⟨_, rfl, nofun⟩
    | (.ok none, next) =>
      rw [hframes] at hattempt
      rw [drain_of_none hattempt, FrameCodec.drain_of_none hframes]
      exact ⟨_, rfl, fun _ => ⟨h.next next, rfl⟩⟩
    | (.ok (some segment), next) =>
      have hless := FrameCodec.length_lt_of_attempt hframes
      rw [hframes, ofCut] at hattempt
      rw [FrameCodec.drain_of_segment hframes]
      cases hsegment : Message.ofSegment c.config.version segment with
      | error e =>
        rw [hsegment] at hattempt
        rw [drain_of_error hattempt, Message.ofSegments_of_error hsegment]
        exact ⟨_, rfl, nofun⟩
      | ok m =>
        rw [hsegment] at hattempt
        obtain ⟨last, hdrain, hlast⟩ := ih _ (hn ▸ hless) (h.next next) rfl
        rw [drain_of_message hattempt hdrain, Message.ofSegments_of_message hsegment]
        rw [hdrain] at hlast
        exact ⟨last, rfl, hlast⟩

/-- **A codec of messages that is fed chunks** hands out the messages of the segments that a codec
of frames does. -/
theorem Over.run_eq (h : c.Over frames) (chunks : List Bytes) :
    c.run chunks =
      Message.ofSegments c.config.version (frames.run chunks).2 (frames.run chunks).1 := by
  induction chunks generalizing c frames with
  | nil =>
    obtain ⟨last, hdrain, -⟩ := h.drain_eq true
    rw [run, hdrain]
    rfl
  | cons chunk chunks ih =>
    have hfed : (c.feed chunk).Over (frames.feed chunk) :=
      ⟨congrArg (Segmenter.feed · chunk) h.segmenter_eq, h.framed⟩
    obtain ⟨last, hdrain, hlast⟩ := hfed.drain_eq false
    rw [show (c.feed chunk).config = c.config from rfl] at hdrain hlast
    rw [run, FrameCodec.run]
    generalize (c.feed chunk).drain false = drained at hdrain hlast ⊢
    rcases hframes : (frames.feed chunk).drain false with ⟨segments, _ | e, next⟩
    · rw [hframes] at hdrain hlast
      dsimp only at hdrain hlast ⊢
      rcases hsegments : Message.ofSegments c.config.version none segments with ⟨ms, _ | e⟩
      · rw [hdrain, hsegments] at hlast
        obtain ⟨hgoes, hconfig⟩ := hlast rfl
        rw [hdrain, hsegments, Message.ofSegments_append hsegments]
        dsimp only
        rw [ih hgoes, hconfig]
      · rw [hdrain, hsegments, Message.ofSegments_append_of_error hsegments]
    · -- the frames stop here, and so do the messages
      rw [hframes] at hdrain
      dsimp only at hdrain ⊢
      obtain ⟨ms, e', hsegments⟩ := Message.ofSegments_of_some c.config.version e segments
      rw [hdrain, hsegments]

end MessageCodec

/-! ## The reader -/

namespace MessageReader

variable {r : MessageReader} {reader : FrameReader}

/-- **A reader of messages yields** the messages of the segments that its frame reader hands
out. -/
theorem yields_of_handsOut (hdone : r.done = false) (hsource : r.source = .frames reader)
    (h : reader.HandsOut segments stop) :
    r.Yields (Message.ofSegments r.config.version stop segments).1
      (Message.ofSegments r.config.version stop segments).2 := by
  have hcall {answer : Except FrameError (Option Bytes)} (hframe : reader.next.1 = answer) :
      r.next = r.taking (MessageSource.ofFrame r.config.version answer)
        (.frames reader.next.2) :=
    next_of_frame hdone hsource (by rw [MessageSource.nextFrame_eq, hframe])
  induction segments generalizing r reader with
  | nil =>
    have hnext := hcall (FrameReader.handsOut_nil.1 h)
    cases stop with
    | none => exact yields_of_end hnext rfl
    | some e => exact yields_of_error hnext rfl
  | cons segment segments ih =>
    obtain ⟨hframe, hrest⟩ := FrameReader.handsOut_cons.1 h
    have hnext := hcall hframe
    rw [MessageSource.ofFrame] at hnext
    cases hsegment : Message.ofSegment r.config.version segment with
    | error e =>
      rw [hsegment] at hnext
      rw [Message.ofSegments_of_error hsegment]
      exact yields_of_error hnext rfl
    | ok m =>
      rw [hsegment] at hnext
      rw [Message.ofSegments_of_message hsegment]
      refine (ih (r := { r with source := .frames reader.next.2, count := r.count + 1 }) hdone rfl
        hrest ?_).cons hnext
      exact fun hframe => next_of_frame hdone rfl (by rw [MessageSource.nextFrame_eq, hframe])

end MessageReader

/-! ## Both -/

/-- **Codecs agree with readers.** Chunks that are fed to a codec, and read by a reader that asks
for at least as many octets as each of them has, come to the same segments and the same first error,
or the end; and in the formats with a framing to the same messages. -/
theorem codecs_agree_with_readers (chunks : List Bytes) (hchunks : ∀ chunk ∈ chunks, chunk ≠ []) :
    (∀ c : FrameConfig, (∀ chunk ∈ chunks, chunk.length ≤ c.chunk) →
      (FrameReader.ofConfig c (.ofChunks chunks)).HandsOut ((FrameCodec.ofConfig c).run chunks).1
        ((FrameCodec.ofConfig c).run chunks).2) ∧
    ∀ c : MessageConfig, c.format ≠ .cborSequence → (∀ chunk ∈ chunks, chunk.length ≤ c.chunk) →
      (MessageReader.ofConfig c (.ofChunks chunks)).Yields ((MessageCodec.ofConfig c).run chunks).1
        ((MessageCodec.ofConfig c).run chunks).2 := by
  have hframes (c : FrameConfig) (hlength : ∀ chunk ∈ chunks, chunk.length ≤ c.chunk) :=
    FrameReader.handsOut_run c chunks fun chunk hchunk => ⟨hchunks chunk hchunk, hlength chunk hchunk⟩
  refine ⟨hframes, fun c hformat hlength => ?_⟩
  obtain ⟨framing, hframing⟩ : ∃ framing, c.format.framing? = some framing := by
    cases hcase : c.format with
    | cborSequence => exact absurd hcase hformat
    | jsonSequence | jsonLines => exact ⟨_, rfl⟩
  have hover : (MessageCodec.ofConfig c).Over (FrameCodec.ofConfig (c.frames framing)) := by
    refine ⟨?_, hformat⟩
    simp only [MessageCodec.ofConfig, hframing]
    rfl
  have hsource : (MessageReader.ofConfig c (.ofChunks chunks)).source =
      .frames (.ofConfig (c.frames framing) (.ofChunks chunks)) := by
    simp only [MessageReader.ofConfig, hframing]
  have hyields := MessageReader.yields_of_handsOut (r := .ofConfig c (.ofChunks chunks)) rfl hsource
    (hframes (c.frames framing) hlength)
  rwa [hover.run_eq]

/-- The end of a file on a line that arrives in two chunks, and a line that is no message. -/
def splitLines : List Bytes := [Text.bytes "\"EndOf", Text.bytes "File\"\n\n\x7b\n"]

/-- A reader that asks for no more than it takes. -/
def splitLinesConfig : MessageConfig := { format := .jsonLines, limit := 11, chunk := 9 }

/-- Codec and reader hand out the same two segments, a message and an error. -/
theorem codecs_agree_with_readers_splitLines :
    ((∀ chunk ∈ splitLines, chunk ≠ []) ∧ splitLinesConfig.format ≠ .cborSequence ∧
        ∀ chunk ∈ splitLines, chunk.length ≤ splitLinesConfig.chunk) ∧
      (FrameReader.ofConfig (splitLinesConfig.frames .lineDelimited) (.ofChunks splitLines)).HandsOut
        [Text.bytes "\"EndOfFile\"", Text.bytes "\x7b"] none ∧
      (MessageReader.ofConfig splitLinesConfig (.ofChunks splitLines)).Yields [.endOfFile]
        (some (.decode ⟨Text.bytes "\x7b", .json ⟨.endInObject, 1, 1⟩⟩)) := by
  have hchunks : ∀ chunk ∈ splitLines, chunk ≠ [] := by decide +kernel
  have hlength : ∀ chunk ∈ splitLines, chunk.length ≤ splitLinesConfig.chunk := by decide +kernel
  obtain ⟨hframes, hmessages⟩ := codecs_agree_with_readers splitLines hchunks
  refine ⟨⟨hchunks, nofun, hlength⟩, ?_, ?_⟩
  · have hrun : (FrameCodec.ofConfig (splitLinesConfig.frames .lineDelimited)).run splitLines =
        ([Text.bytes "\"EndOfFile\"", Text.bytes "\x7b"], none) := by
      decide +kernel
    have hhands := hframes (splitLinesConfig.frames .lineDelimited) hlength
    rwa [hrun] at hhands
  · have hrun : (MessageCodec.ofConfig splitLinesConfig).run splitLines =
        ([.endOfFile], some (.decode ⟨Text.bytes "\x7b", .json ⟨.endInObject, 1, 1⟩⟩)) := by
      decide +kernel
    have hyields := hmessages splitLinesConfig nofun hlength
    rwa [hrun] at hyields

end WarcStream
