import WarcStream.Frame.Codec
import WarcStream.Proofs.Frame.Reading
import WarcStream.Proofs.Frame.Sending
/-!
# The frame codec and the frame writer

A codec appends frames to a buffer, a writer gives them to a sink, and each makes
the checks itself. Both come to `appendTo`: the frame that `FrameConfig.encode`
makes of the payload is appended to what is there, or its error is reported and
nothing is appended (`FrameCodec.encodeOnto_eq`, `FrameWriter.write_eq`). For a
writer this takes a sink that does not fail.
-/

namespace WarcStream

open Transport

section

variable {ε ε' : Type}

/-- Appends what was made to a buffer. Where nothing was made, the buffer stays as it is. -/
def appendTo (buffer : Bytes) : Except ε Bytes → Except ε Unit × Bytes
  | .error e => (.error e, buffer)
  | .ok octets => (.ok (), buffer ++ octets)

theorem appendTo_mapError (f : ε → ε') (buffer : Bytes) (made : Except ε Bytes) :
    appendTo buffer (made.mapError f) =
      ((appendTo buffer made).1.mapError f, (appendTo buffer made).2) := by
  cases made <;> rfl

/-- Two buffers are appended the same octets, and none where there is an error. -/
theorem exists_appendTo (buffer taken : Bytes) (made : Except ε Bytes) :
    ∃ octets, appendTo buffer made = ((appendTo taken made).1, buffer ++ octets) ∧
      (appendTo taken made).2 = taken ++ octets ∧
      ((appendTo taken made).1 ≠ .ok () → octets = []) := by
  cases made with
  | error e =>
    refine ⟨[], ?_, (List.append_nil taken).symm, fun _ => rfl⟩
    rw [List.append_nil]
    rfl
  | ok octets => exact ⟨octets, rfl, rfl, fun hne => absurd rfl hne⟩

end

theorem Framing.encodeOnto_eq (f : Framing) (payload buffer : Bytes) :
    f.encodeOnto payload buffer = appendTo buffer (f.encode payload) := by
  unfold encodeOnto encode
  cases f.checkPayload payload with
  | error e => rfl
  | ok _ =>
    have hframe : buffer ++ f.opening ++ payload ++ [Bytes.lineFeed] =
        buffer ++ f.frame payload := by
      simp only [frame, List.append_assoc]
    rw [hframe]
    rfl

namespace FrameCodec

variable {config : FrameConfig} {c : FrameCodec}

/-- The codec has this configuration, whatever it has been fed and has handed out. -/
structure Configured (config : FrameConfig) (c : FrameCodec) : Prop where
  config_eq : c.config = config
  framing_eq : c.segmenter.framing = config.framing

theorem configured_ofConfig (config : FrameConfig) : (ofConfig config).Configured config :=
  ⟨rfl, rfl⟩

theorem Configured.feed (h : c.Configured config) (octets : Bytes) :
    (c.feed octets).Configured config :=
  ⟨h.config_eq, h.framing_eq⟩

theorem Configured.decode (h : c.Configured config) : c.decode.2.Configured config :=
  ⟨h.config_eq, c.segmenter.framing_next.trans h.framing_eq⟩

theorem Configured.decodeEnd (h : c.Configured config) : c.decodeEnd.2.Configured config :=
  ⟨h.config_eq, c.segmenter.framing_last.trans h.framing_eq⟩

/-- **A codec appends the frame of a payload**, or it makes the same error of it. -/
theorem encodeOnto_eq (h : c.Configured config) (payload buffer : Bytes) :
    c.encodeOnto payload buffer = appendTo buffer (config.encode payload) := by
  rw [encodeOnto, h.config_eq, h.framing_eq, FrameConfig.encode]
  cases config.framing.checkSize payload.length config.limit with
  | error e => rfl
  | ok _ => exact config.framing.encodeOnto_eq payload buffer

end FrameCodec

namespace FrameWriter

variable {w : FrameWriter}

/-- **All that one call can do** on a sink that does not fail: the payload is refused, and nothing
changes, or its frame is taken. -/
theorem write_cases (hsink : w.sink.Reliable) (payload : Bytes) :
    (∃ e, w.config.encode payload = .error e ∧ w.write payload = (.error e, w)) ∨
    ∃ frame next, w.config.encode payload = .ok frame ∧
      w.write payload = (.ok (), { w with sink := next }) ∧
      next.taken = w.sink.taken ++ frame ∧ next.Reliable := by
  cases hencode : w.config.encode payload with
  | error e => exact .inl ⟨e, rfl, by simp only [write, hencode]⟩
  | ok frame =>
    obtain ⟨next, hdeliver, htaken, hnext⟩ := hsink.deliver frame
    exact .inr ⟨frame, next, rfl, by simp only [write, hencode, hdeliver], htaken, hnext⟩

/-- **A writer gives the frame of a payload to a sink that does not fail**, or it makes an error of
it and gives it nothing. -/
theorem write_eq (hsink : w.sink.Reliable) (payload : Bytes) :
    ((w.write payload).1, (w.write payload).2.sink.taken) =
      appendTo w.sink.taken (w.config.encode payload) := by
  rcases write_cases hsink payload with
    ⟨e, hencode, hwrite⟩ | ⟨frame, next, hencode, hwrite, htaken, -⟩
  · rw [hencode, hwrite]
    rfl
  · rw [hencode, hwrite, htaken]
    rfl

end FrameWriter

end WarcStream
