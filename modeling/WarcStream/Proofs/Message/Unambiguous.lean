import WarcStream.Proofs.Frame.Passage
import WarcStream.Proofs.Message.Encoding
import WarcStream.Proofs.Message.Sending
/-!
# Messages and the octets of the framing

`Framing.Delimited` says where the octets that carry meaning on the wire stand
in a frame: a record separator opens it, where the layout has one, a line feed
closes it, and there is none of them in between. The frame around a payload
without control characters is delimited (`delimited_frame`), and no text of a
message holds one, whatever its names, its values and its data hold. So neither
a writer nor a codec can find a message ambiguous, and all the frames that they
emit are delimited (`messages_delimited`).
-/

namespace WarcStream

open Transport Bytes

namespace Bytes

variable {xs : Bytes} {b : UInt8} {i : Nat}

/-- An octet that stands nowhere before the end stands at the end alone. -/
theorem getElem?_concat_iff (h : b ∉ xs) : (xs ++ [b])[i]? = some b ↔ i = xs.length := by
  rcases Nat.lt_trichotomy i xs.length with hlt | rfl | hgt
  · rw [List.getElem?_append_left hlt]
    constructor
    · exact fun hb => absurd (List.mem_of_getElem? hb) h
    · exact fun heq => absurd heq (Nat.ne_of_lt hlt)
  · simp
  · have hnone : (xs ++ [b])[i]? = none := by
      rw [List.getElem?_eq_none_iff, List.length_append, List.length_singleton]
      omega
    rw [hnone]
    simp only [reduceCtorEq, false_iff]
    omega

end Bytes

/-! ## Frames -/

namespace Framing

variable {payload : Bytes}

/-- **The octets of the framing stand where they belong**: a record separator in front if the layout
has one, and a line feed at the end. Neither stands anywhere else. -/
structure Delimited (f : Framing) (frame : Bytes) : Prop where
  separator_iff : ∀ i, frame[i]? = some recordSeparator ↔ f = .recordSeparated ∧ i = 0
  lineFeed_iff : ∀ i, frame[i]? = some lineFeed ↔ i + 1 = frame.length

/-- A control character is not in a payload without them. -/
theorem notMem_of_le (h : ∀ b ∈ payload, 0x20 ≤ b) {b : UInt8} (hb : b < 0x20) : b ∉ payload :=
  fun hmem => absurd (h b hmem) (UInt8.not_le.2 hb)

/-- The frame around a payload without control characters is delimited. -/
theorem delimited_frame (h : ∀ b ∈ payload, 0x20 ≤ b) (f : Framing) :
    f.Delimited (f.frame payload) := by
  have hseparator : recordSeparator ∉ payload := notMem_of_le h (by decide)
  have hline : lineFeed ∉ payload := notMem_of_le h (by decide)
  have hseparator' : recordSeparator ∉ payload ++ [lineFeed] := by
    rw [List.mem_append, not_or]
    exact ⟨hseparator, by decide⟩
  constructor
  · intro i
    cases f with
    | lineDelimited =>
      simp only [frame, opening, List.nil_append, reduceCtorEq, false_and, iff_false]
      exact fun hi => hseparator' (List.mem_of_getElem? hi)
    | recordSeparated =>
      have hframe : recordSeparated.frame payload =
          recordSeparator :: (payload ++ [lineFeed]) := rfl
      rw [hframe]
      cases i with
      | zero => simp
      | succ i =>
        simp only [List.getElem?_cons_succ, Nat.add_one_ne_zero, and_false, iff_false]
        exact fun hi => hseparator' (List.mem_of_getElem? hi)
  · intro i
    have hfront : lineFeed ∉ f.opening ++ payload := by
      rw [List.mem_append, not_or]
      exact ⟨by cases f <;> decide, hline⟩
    rw [frame, getElem?_concat_iff hfront]
    simp only [List.length_append, List.length_singleton]
    omega

/-- Nothing but the octets of the framing is a delimited frame. -/
theorem delimited_frame_nil (f : Framing) : f.Delimited (f.frame []) :=
  delimited_frame (fun _ hb => absurd hb List.not_mem_nil) f

end Framing

/-! ## Messages -/

namespace MessageConfig

variable {c : MessageConfig} {f : Framing} {m : Message}

/-- No message is ambiguous. -/
theorem isAmbiguity_of_encode {e : MessageError} (h : c.encode m = .error e) :
    e.isAmbiguity = false := by
  rw [encode_eq] at h
  split at h
  · split at h
    · cases h
      rfl
    · cases h
  · cases h
    rfl

/-- The frame of a message is delimited. -/
theorem delimited_of_encode (hframing : c.format.framing? = some f) {frame : Bytes}
    (h : c.encode m = .ok frame) : f.Delimited frame := by
  have hframe : c.frame (c.text m) = f.frame (c.text m) := by rw [MessageConfig.frame, hframing]
  rw [encode_eq] at h
  split at h
  · split at h
    · cases h
    · cases h
      rw [hframe]
      exact Framing.delimited_frame (le_of_mem_text hframing) f
  · cases h

end MessageConfig

namespace WriteCall

variable {c : MessageConfig} {f : Framing} {call : WriteCall}

/-- What a call puts on the sink is the start of a delimited frame, all of it where the call
succeeds. -/
theorem Accounted.delimited (h : call.Accounted c) (hframing : c.format.framing? = some f) :
    (∀ e, call.answer = .error e → e.isAmbiguity = false) ∧
      ∃ frame, f.Delimited frame ∧ call.put <+: frame ∧
        (call.answer = .ok () → call.put = frame) := by
  have hframe {frame : Bytes} (hencode : c.encode call.message = .ok frame) : f.Delimited frame :=
    MessageConfig.delimited_of_encode hframing hencode
  have hfailed {e : MessageError} {p : Prop} : (.error e : Except MessageError Unit) = .ok () → p := by
    rintro ⟨⟩
  cases h.outcome with
  | sent hanswer hencode _ _ =>
    rw [hanswer]
    refine ⟨?_, _, hframe hencode, List.prefix_refl _, fun _ => rfl⟩
    rintro e ⟨⟩
  | refused hanswer _ hencode hafter =>
    have hput : call.put = [] := by rw [WriteCall.put, hafter, List.drop_length]
    rw [hanswer, hput]
    refine ⟨?_, _, f.delimited_frame_nil, List.nil_prefix, hfailed⟩
    rintro e ⟨⟩
    exact MessageConfig.isAmbiguity_of_encode hencode
  | closed hanswer hencode hbegins _ _ =>
    rw [hanswer]
    refine ⟨?_, _, hframe hencode, hbegins, hfailed⟩
    rintro e ⟨⟩
    rfl
  | failed hanswer _ _ hencode hbegins _ _ =>
    rw [hanswer]
    refine ⟨?_, _, hframe hencode, hbegins, hfailed⟩
    rintro e ⟨⟩
    rfl
  | unflushed hanswer _ _ hencode _ _ =>
    rw [hanswer]
    refine ⟨?_, _, hframe hencode, List.prefix_refl _, hfailed⟩
    rintro e ⟨⟩
    rfl

end WriteCall

namespace MessageWriter

/-- Every call of a writer is accounted for. -/
theorem accounted_of_mem_calls {w : MessageWriter} {ms : List Message} {call : WriteCall}
    (h : call ∈ w.calls ms) : call.Accounted w.config := by
  induction ms generalizing w with
  | nil => cases h
  | cons m ms ih =>
    obtain ⟨haccounted, hconfig, -⟩ := w.accounted_write m
    rcases List.mem_cons.1 h with rfl | h
    · exact haccounted
    · rw [← hconfig]
      exact ih h

end MessageWriter

/-- **A message is never mistaken for framing.** Where its version can represent a message, no octet
of its text is a control character, and neither framing finds the text ambiguous. So no call of a
writer, whatever the sink does, and no call of a codec, whatever it has been fed and a buffer holds,
fails for that reason. Each puts a delimited frame there if it succeeds; a call of a writer that
fails puts no more there than the start of one, and a codec then leaves the buffer as it is. -/
theorem messages_delimited :
    (∀ (version : ProtocolVersion) (m : Message), version.canRepresent m = true →
      ∃ payload, m.toPayload version = .ok payload ∧ (∀ b ∈ payload, 0x20 ≤ b) ∧
        ∀ f : Framing, f.checkPayload payload = .ok ()) ∧
    (∀ (w : MessageWriter) (f : Framing), w.config.format.framing? = some f →
      ∀ ms, ∀ call ∈ w.calls ms,
        (∀ e, call.answer = .error e → e.isAmbiguity = false) ∧
          ∃ frame, f.Delimited frame ∧ call.put <+: frame ∧
            (call.answer = .ok () → call.put = frame)) ∧
    (∀ (config : MessageConfig) (c : MessageCodec) (f : Framing), c.Configured config →
      config.format.framing? = some f → ∀ m buffer,
        (∃ e, c.encodeOnto m buffer = (.error e, buffer) ∧ e.isAmbiguity = false) ∨
          ∃ frame, f.Delimited frame ∧ c.encodeOnto m buffer = (.ok (), buffer ++ frame)) := by
  refine ⟨?_, ?_, ?_⟩
  · intro version m hversion
    have hclean : ∀ b ∈ Json.print m.document, 0x20 ≤ b :=
      fun b hb => Json.le_of_mem_print m.plain_document hb
    exact ⟨_, Message.toPayload_eq_ok_iff.2 ⟨hversion, rfl⟩, hclean,
      fun f => f.checkPayload_of_le hclean⟩
  · intro w f hframing ms call hcall
    exact (MessageWriter.accounted_of_mem_calls hcall).delimited hframing
  · intro config c f hc hframing m buffer
    rw [MessageCodec.encodeOnto_eq hc]
    cases hencode : config.encode m with
    | error e => exact .inl ⟨e, rfl, MessageConfig.isAmbiguity_of_encode hencode⟩
    | ok frame => exact .inr ⟨frame, MessageConfig.delimited_of_encode hframing hencode, rfl⟩

/-- A header with the octets of the framing in its version, in a name and in a value. -/
def hostileHeader : Message :=
  .header ⟨"WARC/1.1\n\x1e", [("a\nb", "\x1e\r\n\x00\x1f\x7f")]⟩

/-- Such a header goes through both checks and out in a delimited frame, from a writer to a sink
that is slow and from a codec behind octets that are there already. -/
theorem messages_delimited_hostileHeader :
    (∃ payload, hostileHeader.toPayload .v1 = .ok payload ∧
      ∀ f : Framing, f.checkPayload payload = .ok ()) ∧
    (∀ call ∈ (MessageWriter.mk { version := .v1 } slowSink 0).calls [hostileHeader],
      call.answer = .ok () ∧ Framing.recordSeparated.Delimited call.put) ∧
    ∃ frame, Framing.lineDelimited.Delimited frame ∧
      (MessageCodec.ofConfig { format := .jsonLines }).encodeOnto hostileHeader [lineFeed] =
        (.ok (), lineFeed :: frame) := by
  obtain ⟨htexts, hwriters, hcodecs⟩ := messages_delimited
  refine ⟨?_, ?_, ?_⟩
  · obtain ⟨payload, hpayload, -, hcheck⟩ := htexts .v1 hostileHeader (by decide)
    exact ⟨payload, hpayload, hcheck⟩
  · intro call hcall
    obtain ⟨-, frame, hframe, -, hput⟩ := hwriters _ .recordSeparated rfl _ call hcall
    have hanswers : ((MessageWriter.mk { version := .v1 } slowSink 0).calls
        [hostileHeader]).map WriteCall.answer = [.ok ()] := by
      decide +kernel
    have hanswer : call.answer = .ok () := by
      have := List.mem_map_of_mem (f := WriteCall.answer) hcall
      rw [hanswers] at this
      exact List.mem_singleton.1 this
    rw [hput hanswer]
    exact ⟨hanswer, hframe⟩
  · rcases hcodecs _ _ .lineDelimited
        (MessageCodec.configured_ofConfig { format := .jsonLines }) rfl hostileHeader [lineFeed]
      with ⟨e, he, -⟩ | hframe
    · have hanswer : ((MessageCodec.ofConfig { format := .jsonLines }).encodeOnto hostileHeader
          [lineFeed]).1 = .ok () := by
        decide +kernel
      rw [he] at hanswer
      cases hanswer
    · exact hframe

end WarcStream
