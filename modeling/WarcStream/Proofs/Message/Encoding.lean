import WarcStream.Message.Codec
import WarcStream.Proofs.Frame.Encoding
import WarcStream.Proofs.Message.Writing
/-!
# The message codec and the message writer

The codec that appends messages to a buffer and the writer that gives them to a
sink check the version, the limit and the payload each in its own order, and
each has a branch of its own for items. Both come to what `MessageConfig.encode`
makes of the message (`MessageCodec.encodeOnto_eq`, `MessageWriter.write_eq`),
so they agree, message by message and payload by payload
(`codecs_agree_with_writers`).
-/

namespace WarcStream

open Transport

namespace MessageCodec

variable {config : MessageConfig} {c : MessageCodec}

/-- The codec has this configuration, whatever it has been fed and has handed out. -/
structure Configured (config : MessageConfig) (c : MessageCodec) : Prop where
  config_eq : c.config = config
  framing_eq : c.segmenter.framing = config.format.framing?.getD .recordSeparated

theorem configured_ofConfig (config : MessageConfig) : (ofConfig config).Configured config :=
  ⟨rfl, rfl⟩

theorem Configured.feed (h : c.Configured config) (octets : Bytes) :
    (c.feed octets).Configured config :=
  ⟨h.config_eq, h.framing_eq⟩

theorem Configured.decode (h : c.Configured config) : c.decode.2.Configured config := by
  unfold MessageCodec.decode
  split
  · exact ⟨h.config_eq, h.framing_eq⟩
  · exact ⟨h.config_eq, c.segmenter.framing_next.trans h.framing_eq⟩
  · exact ⟨h.config_eq, c.segmenter.framing_next.trans h.framing_eq⟩

theorem Configured.decodeEnd (h : c.Configured config) : c.decodeEnd.2.Configured config := by
  unfold MessageCodec.decodeEnd
  split
  · exact ⟨h.config_eq, h.framing_eq⟩
  · exact ⟨h.config_eq, c.segmenter.framing_last.trans h.framing_eq⟩
  · exact ⟨h.config_eq, c.segmenter.framing_last.trans h.framing_eq⟩

/-- The frames of a codec are those of its configuration. -/
theorem Configured.frames (h : c.Configured config) {framing : Framing}
    (hframing : config.format.framing? = some framing) :
    c.frames.Configured (config.frames framing) := by
  have hsegmenter := h.framing_eq
  rw [hframing] at hsegmenter
  refine ⟨?_, hsegmenter⟩
  rw [MessageCodec.frames, h.config_eq, hsegmenter]
  rfl

/-- What a codec does with an item. -/
theorem encodeOnto_of_items (h : c.Configured config) (hformat : config.format = .cborSequence)
    (m : Message) (buffer : Bytes) :
    c.encodeOnto m buffer = appendTo buffer (config.encode m) := by
  simp only [encodeOnto, MessageConfig.encode, MessageConfig.payload, MessageConfig.wrap,
    h.config_eq, hformat, StreamFormat.framing?]
  cases m.toItem config.version with
  | error e => rfl
  | ok item =>
    by_cases hlarge : config.limit < item.length
    · simp only [bind, Except.bind, if_pos hlarge]
      rfl
    · simp only [bind, Except.bind, if_neg hlarge]
      rfl

/-- What a codec does with a payload that goes into a frame. -/
theorem encodeOnto_of_framing (h : c.Configured config) {framing : Framing}
    (hframing : config.format.framing? = some framing) (m : Message) (buffer : Bytes) :
    c.encodeOnto m buffer = appendTo buffer (config.encode m) := by
  have hframes := h.frames hframing
  have hencode : config.encode m =
      m.toPayload config.version >>= fun payload =>
        ((config.frames framing).encode payload).mapError .frame := by
    unfold MessageConfig.encode MessageConfig.payload MessageConfig.wrap
    rw [hframing]
    cases hformat : config.format with
    | jsonSequence | jsonLines => rfl
    | cborSequence => simp [hformat, StreamFormat.framing?] at hframing
  rw [hencode, encodeOnto, h.config_eq]
  cases hformat : config.format with
  | cborSequence => simp [hformat, StreamFormat.framing?] at hframing
  | jsonSequence | jsonLines =>
    cases m.toPayload config.version with
    | error e => rfl
    | ok payload =>
      have hpayload := FrameCodec.encodeOnto_eq hframes payload buffer
      simp only [hpayload, ← appendTo_mapError]
      rfl

/-- **A codec appends the octets that carry a message**, or it makes the same error of it. -/
theorem encodeOnto_eq (h : c.Configured config) (m : Message) (buffer : Bytes) :
    c.encodeOnto m buffer = appendTo buffer (config.encode m) := by
  cases hformat : config.format with
  | cborSequence => exact encodeOnto_of_items h hformat m buffer
  | jsonSequence | jsonLines =>
    have hframing : ∃ framing, config.format.framing? = some framing := by
      rw [hformat]
      exact ⟨_, rfl⟩
    obtain ⟨framing, hframing⟩ := hframing
    exact encodeOnto_of_framing h hframing m buffer

end MessageCodec

namespace MessageWriter

variable {w : MessageWriter}

/-- **A writer gives the octets of a message to a sink that does not fail**, or it makes an error of
it and gives it nothing. -/
theorem write_eq (hsink : w.sink.Reliable) (m : Message) :
    ((w.write m).1, (w.write m).2.sink.taken) = appendTo w.sink.taken (w.config.encode m) := by
  cases hencode : w.config.encode m with
  | error e =>
    have hwrite : w.write m = (.error e, w) := by simp only [write, hencode]
    rw [hwrite]
    rfl
  | ok octets =>
    obtain ⟨next, hdeliver, htaken, -⟩ := hsink.deliver octets
    have hwrite : w.write m = (.ok (), { w with sink := next, written := w.written + 1 }) := by
      simp only [write, hencode, hdeliver]
    rw [hwrite, htaken]
    rfl

end MessageWriter

/-- **The codecs and the writers agree.** Whatever a codec has been fed and a buffer holds, it
appends to the buffer what a writer of the same configuration gives to a sink that does not fail,
and both answer the same; where this is an error, the buffer stays as it is and the sink is given
nothing. So it is for every message, and for the frame of every payload. -/
theorem codecs_agree_with_writers :
    (∀ {w : MessageWriter} {c : MessageCodec}, c.Configured w.config → w.sink.Reliable →
      ∀ (m : Message) (buffer : Bytes),
        ∃ octets, c.encodeOnto m buffer = ((w.write m).1, buffer ++ octets) ∧
          (w.write m).2.sink.taken = w.sink.taken ++ octets ∧
          ((w.write m).1 ≠ .ok () → octets = [])) ∧
    (∀ {w : FrameWriter} {c : FrameCodec}, c.Configured w.config → w.sink.Reliable →
      ∀ payload buffer : Bytes,
        ∃ octets, c.encodeOnto payload buffer = ((w.write payload).1, buffer ++ octets) ∧
          (w.write payload).2.sink.taken = w.sink.taken ++ octets ∧
          ((w.write payload).1 ≠ .ok () → octets = [])) := by
  constructor
  · intro w c hc hsink m buffer
    obtain ⟨hanswer, htaken⟩ := Prod.mk.inj (MessageWriter.write_eq hsink m)
    rw [MessageCodec.encodeOnto_eq hc, hanswer, htaken]
    exact exists_appendTo buffer w.sink.taken (w.config.encode m)
  · intro w c hc hsink payload buffer
    obtain ⟨hanswer, htaken⟩ := Prod.mk.inj (FrameWriter.write_eq hsink payload)
    rw [FrameCodec.encodeOnto_eq hc, hanswer, htaken]
    exact exists_appendTo buffer w.sink.taken (w.config.encode payload)

/-- A sink that takes two octets and is interrupted. -/
def slowSink : Sink where
  acceptances := [.atMost 2, .fault (.plain .interrupted)]

theorem reliable_slowSink : slowSink.Reliable := by
  constructor
  · intro a ha
    simp only [slowSink, List.mem_cons, List.not_mem_nil, or_false] at ha
    rcases ha with rfl | rfl
    · exact Nat.zero_lt_two
    · rfl
  · intro f hf
    simp [slowSink] at hf

/-- A line behind octets that are there already, and a payload that is both too large and
ambiguous, which is refused for its size. -/
theorem codecs_agree_with_writers_slowSink :
    (∃ octets,
      (MessageCodec.ofConfig { format := .jsonLines }).encodeOnto .endOfFile [0x3c] =
        (.ok (), [0x3c] ++ octets) ∧
      (MessageWriter.write ⟨{ format := .jsonLines }, slowSink, 0⟩ .endOfFile).2.sink.taken =
        octets) ∧
    ((FrameCodec.ofConfig { limit := 1 }).feed [0x61]).encodeOnto [0x0a, 0x1e] [0x3c] =
      (.error (.tooLarge 3 1), [0x3c]) := by
  obtain ⟨hmessages, hframes⟩ := codecs_agree_with_writers
  constructor
  · obtain ⟨octets, hbuffer, htaken, -⟩ :=
      hmessages (w := ⟨{ format := .jsonLines }, slowSink, 0⟩)
        (MessageCodec.configured_ofConfig _) reliable_slowSink .endOfFile [0x3c]
    have hanswer :
        (MessageWriter.write ⟨{ format := .jsonLines }, slowSink, 0⟩ .endOfFile).1 = .ok () := by
      decide +kernel
    rw [hanswer] at hbuffer
    exact ⟨octets, hbuffer, htaken⟩
  · obtain ⟨octets, hbuffer, -, hnone⟩ :=
      hframes (w := ⟨{ limit := 1 }, slowSink⟩)
        ((FrameCodec.configured_ofConfig _).feed [0x61]) reliable_slowSink [0x0a, 0x1e] [0x3c]
    have hanswer :
        (FrameWriter.write ⟨{ limit := 1 }, slowSink⟩ [0x0a, 0x1e]).1 =
          .error (.tooLarge 3 1) := by
      decide +kernel
    rw [hanswer] at hbuffer hnone
    rw [hbuffer, hnone nofun]
    rfl

end WarcStream
