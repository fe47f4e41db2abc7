import WarcStream.Proofs.Frame.Encoding
import WarcStream.Proofs.Frame.Resumption
/-!
# Payloads come back

On a sink that does not fail a call of a frame writer is settled by its payload
alone (`FrameCall.Settled`): the payload is too large, or ambiguous, and leaves
nothing, or its whole frame is on the wire. A reader of the same framing and
limit hands out the payloads that were sent and are not blank, in their order
(`FrameWriter.payloads_read_back`).
-/

namespace WarcStream

open Transport Bytes

namespace FrameConfig

variable {c : FrameConfig} {payload : Bytes}

/-- The answer to a payload. The size is what is looked at first, and of the reserved octets it is
the first that is reported. -/
inductive Judges (c : FrameConfig) (payload : Bytes) : Except FrameError Unit → Prop
  | tooLarge :
      c.limit < c.framing.segmentLength payload.length →
      Judges c payload (.error (.tooLarge (c.framing.segmentLength payload.length) c.limit))
  | ambiguous {before after : Bytes} {b : UInt8} :
      c.framing.segmentLength payload.length ≤ c.limit →
      payload = before ++ b :: after → (∀ free ∈ before, c.framing.isReserved free = false) →
      c.framing.isReserved b = true →
      Judges c payload (.error (.ambiguous b before.length))
  | accepted :
      c.framing.segmentLength payload.length ≤ c.limit →
      (∀ b ∈ payload, c.framing.isReserved b = false) →
      Judges c payload (.ok ())

/-- What is made of a payload answers it. -/
theorem judges_encode (c : FrameConfig) (payload : Bytes) :
    c.Judges payload ((c.encode payload).map fun _ => ()) := by
  rw [encode, Framing.checkSize]
  by_cases hlimit : c.limit < c.framing.segmentLength payload.length
  · rw [if_pos hlimit]
    exact .tooLarge hlimit
  rw [if_neg hlimit]
  have hwithin := Nat.le_of_not_lt hlimit
  cases hfound : c.framing.firstReserved? payload with
  | none =>
    have hcheck : c.framing.checkPayload payload = .ok () := by
      rw [Framing.checkPayload, hfound]
    rw [Framing.encode, hcheck]
    exact .accepted hwithin (Framing.firstReserved?_eq_none_iff.1 hfound)
  | some found =>
    obtain ⟨b, offset⟩ := found
    have hcheck : c.framing.checkPayload payload = .error (.ambiguous b offset) := by
      rw [Framing.checkPayload, hfound]
    obtain ⟨before, after, hsplit, rfl, hreserved, hbefore⟩ :=
      Framing.exists_of_firstReserved? hfound
    rw [Framing.encode, hcheck]
    exact .ambiguous hwithin hsplit hbefore hreserved

/-- What is accepted has a segment that is cut nowhere. -/
theorem Judges.delimiter_notMem (h : c.Judges payload (.ok ())) :
    c.framing.delimiter ∉ c.framing.segment payload := by
  cases h with
  | accepted _ hfree =>
    exact Framing.delimiter_notMem_segment (Framing.checkPayload_eq_ok_iff.2 hfree)

/-- What is accepted is within the limit. -/
theorem Judges.segmentLength_le (h : c.Judges payload (.ok ())) :
    c.framing.segmentLength payload.length ≤ c.limit := by
  cases h with
  | accepted hwithin _ => exact hwithin

end FrameConfig

namespace FrameCall

variable {c : FrameConfig} {call : FrameCall}

/-- **A call is settled by its payload**: the frame of the payload is on the wire if it is accepted,
and nothing is if it is refused. -/
structure Settled (c : FrameConfig) (call : FrameCall) : Prop where
  answer_eq : call.answer = (c.encode call.payload).map fun _ => ()
  put_eq : call.put = if call.answer.isOk then c.framing.frame call.payload else []

theorem Settled.judges (h : call.Settled c) : c.Judges call.payload call.answer :=
  h.answer_eq ▸ c.judges_encode call.payload

/-- The payloads of the calls that succeeded. -/
def sent (calls : List FrameCall) : List Bytes :=
  (calls.filter fun call => call.answer.isOk).map payload

theorem sent_cons (call : FrameCall) (rest : List FrameCall) :
    sent (call :: rest) =
      if call.answer.isOk then call.payload :: sent rest else sent rest := by
  rw [sent, List.filter_cons]
  cases call.answer.isOk <;> rfl

/-- What was sent was accepted. -/
theorem judges_of_mem_sent {calls : List FrameCall} {payload : Bytes}
    (hcalls : ∀ call ∈ calls, call.Settled c) (h : payload ∈ sent calls) :
    c.Judges payload (.ok ()) := by
  obtain ⟨call, hcall, rfl⟩ := List.mem_map.1 h
  obtain ⟨hmem, hok⟩ := List.mem_filter.1 hcall
  have hjudges := (hcalls call hmem).judges
  cases hanswer : call.answer with
  | ok _ => rwa [hanswer] at hjudges
  | error e =>
    rw [hanswer] at hok
    cases hok

/-- On the wire are the frames of what was sent. -/
theorem wire_eq_frames {calls : List FrameCall} (hcalls : ∀ call ∈ calls, call.Settled c) :
    FrameWriter.wire calls = (sent calls).flatMap c.framing.frame := by
  induction calls with
  | nil => rfl
  | cons call rest ih =>
    obtain ⟨hcall, hrest⟩ := List.forall_mem_cons.1 hcalls
    have hwire : FrameWriter.wire (call :: rest) = call.put ++ FrameWriter.wire rest := rfl
    rw [hwire, ih hrest, hcall.put_eq, sent_cons]
    cases call.answer.isOk <;> rfl

end FrameCall

namespace FrameWriter

variable {w : FrameWriter}

/-- **One call** on a sink that does not fail. -/
theorem settled_write (hsink : w.sink.Reliable) (payload : Bytes) :
    FrameCall.Settled w.config ⟨payload, (w.write payload).1, w.sink, (w.write payload).2.sink⟩ ∧
      (w.write payload).2.config = w.config ∧ (w.write payload).2.sink.Reliable := by
  rcases write_cases hsink payload with
    ⟨e, hencode, hwrite⟩ | ⟨frame, next, hencode, hwrite, htaken, hnext⟩
  · rw [hwrite]
    refine ⟨⟨?_, FrameCall.put_eq (List.append_nil _).symm⟩, rfl, hsink⟩
    rw [hencode]
    rfl
  · obtain ⟨rfl, -, -⟩ := FrameConfig.of_encode_eq_ok hencode
    rw [hwrite]
    refine ⟨⟨?_, FrameCall.put_eq htaken⟩, rfl, hnext⟩
    rw [hencode]
    rfl

/-- **All calls**, one after the other. -/
theorem settled_calls (hsink : w.sink.Reliable) (payloads : List Bytes) :
    ∀ call ∈ w.calls payloads, call.Settled w.config := by
  induction payloads generalizing w with
  | nil => exact fun _ hcall => absurd hcall List.not_mem_nil
  | cons payload rest ih =>
    obtain ⟨hfirst, hconfig, hnext⟩ := settled_write hsink payload
    have hrest := ih hnext
    rw [hconfig] at hrest
    exact List.forall_mem_cons.2 ⟨hfirst, hrest⟩

end FrameWriter

/-- Appends the frames of payloads to a buffer, one after the other, whatever comes of each. -/
def FrameCodec.encodeEach (codec : FrameCodec) :
    List Bytes → Bytes → List (Except FrameError Unit) × Bytes
  | [], buffer => ([], buffer)
  | payload :: rest, buffer =>
    let (answer, next) := codec.encodeOnto payload buffer
    let (answers, full) := codec.encodeEach rest next
    (answer :: answers, full)

/-- **A codec answers as the calls are answered**, and appends the frames of what was sent. -/
theorem FrameCodec.encodeEach_eq {c : FrameConfig} {codec : FrameCodec}
    (hcodec : codec.Configured c) {calls : List FrameCall}
    (hcalls : ∀ call ∈ calls, call.Settled c) (buffer : Bytes) :
    codec.encodeEach (calls.map FrameCall.payload) buffer =
      (calls.map FrameCall.answer,
        buffer ++ (FrameCall.sent calls).flatMap c.framing.frame) := by
  induction calls generalizing buffer with
  | nil => exact congrArg (Prod.mk []) (List.append_nil buffer).symm
  | cons call rest ih =>
    obtain ⟨hcall, hrest⟩ := List.forall_mem_cons.1 hcalls
    have hanswer := hcall.answer_eq
    rw [List.map_cons, encodeEach, encodeOnto_eq hcodec]
    cases hencode : c.encode call.payload with
    | error e =>
      rw [hencode] at hanswer
      have hsent : FrameCall.sent (call :: rest) = FrameCall.sent rest := by
        rw [FrameCall.sent_cons, hanswer]
        rfl
      simp only [appendTo, ih hrest, List.map_cons, hanswer, hsent]
      rfl
    | ok frame =>
      obtain ⟨rfl, -, -⟩ := FrameConfig.of_encode_eq_ok hencode
      rw [hencode] at hanswer
      have hsent : FrameCall.sent (call :: rest) = call.payload :: FrameCall.sent rest := by
        rw [FrameCall.sent_cons, hanswer]
        rfl
      simp only [appendTo, ih hrest, List.map_cons, hanswer, hsent, List.flatMap_cons,
        List.append_assoc]
      rfl

namespace FrameWriter

/-- The segments of payloads that are not blank. -/
def legible (f : Framing) (payloads : List Bytes) : List Bytes :=
  (payloads.filter fun payload => !allBlank payload).map f.segment

theorem solid_segments (f : Framing) (payloads : List Bytes) :
    solid (payloads.map f.segment) = legible f payloads := by
  have hblank : ∀ payload ∈ payloads,
      ((fun run => !allBlank run) ∘ f.segment) payload = !allBlank payload := by
    intro payload _
    rw [Function.comp_apply, f.allBlank_segment]
  rw [solid, List.filter_map, List.filter_congr hblank, legible]

/-- **Only blank payloads are lost.** Payloads are written one after the other, whatever comes of
each, to a sink that does not fail. Every payload that is within the limit and holds no reserved
octet is accepted, and any other is refused for the one or the other and leaves nothing on the
wire. A codec gives the same answers and appends the same octets. However the wire is cut for it, a
reader of the same framing and limit hands out what was accepted and is not blank, in its order,
and then the end: in the record-separated framing with the line feed, and bare on lines. -/
theorem payloads_read_back (w : FrameWriter) (hsink : w.sink.Reliable) (payloads : List Bytes) :
    (w.calls payloads).map FrameCall.payload = payloads ∧
    (∀ call ∈ w.calls payloads,
      w.config.Judges call.payload call.answer ∧
        (call.answer ≠ .ok () → call.after.taken = call.before.taken)) ∧
    (w.writeEach payloads).sink.taken =
      w.sink.taken ++ (FrameCall.sent (w.calls payloads)).flatMap w.config.framing.frame ∧
    (∀ (codec : FrameCodec) (buffer : Bytes), codec.Configured w.config →
      codec.encodeEach payloads buffer =
        ((w.calls payloads).map FrameCall.answer,
          buffer ++ (FrameCall.sent (w.calls payloads)).flatMap w.config.framing.frame)) ∧
    ∀ (chunk : Nat) (s : Source),
      s.Readable ((FrameCall.sent (w.calls payloads)).flatMap w.config.framing.frame) →
      ∀ k, (FrameReader.ofConfig { w.config with chunk } s).answers
          ((legible w.config.framing (FrameCall.sent (w.calls payloads))).length + k) =
        (legible w.config.framing (FrameCall.sent (w.calls payloads))).map
            (fun segment => .ok (some segment)) ++
          List.replicate k (.ok none) := by
  obtain ⟨hpayloads, haccounted, htaken⟩ := w.taken_calls payloads
  have hsettled := settled_calls hsink payloads
  have hwire := FrameCall.wire_eq_frames hsettled
  refine ⟨hpayloads, fun call hcall => ⟨(hsettled call hcall).judges, fun hne => ?_⟩, ?_,
    fun codec buffer hcodec => ?_, fun chunk s hs k => ?_⟩
  · have hput := (hsettled call hcall).put_eq
    rw [(haccounted call hcall).taken_eq, hput]
    cases hanswer : call.answer with
    | ok _ => exact absurd hanswer hne
    | error e => exact List.append_nil _
  · rw [← hwire]
    exact htaken
  · have hcodec := FrameCodec.encodeEach_eq hcodec hsettled buffer
    rwa [hpayloads] at hcodec
  · have haccepted : ∀ payload ∈ FrameCall.sent (w.calls payloads),
        w.config.Judges payload (.ok ()) :=
      fun payload hpayload => FrameCall.judges_of_mem_sent hsettled hpayload
    have hfree : ∀ payload ∈ FrameCall.sent (w.calls payloads),
        w.config.framing.delimiter ∉ w.config.framing.segment payload :=
      fun payload hpayload => (haccepted payload hpayload).delimiter_notMem
    have hfits := Framing.fits_frames hfree fun payload hpayload =>
      (haccepted payload hpayload).segmentLength_le
    have hread := FrameReader.answers_of_readable (c := { w.config with chunk }) hs hfits k
    rwa [Framing.solid_splitOn_flatMap hfree, solid_segments] at hread

/-- A writer of short frames. Its sink takes one octet, is interrupted, takes three more and then
everything, and the first flush is interrupted. -/
def haltingWriter (framing : Framing) : FrameWriter where
  config := { framing, limit := 4 }
  sink :=
    { acceptances := [.atMost 1, .fault (.plain .interrupted), .atMost 3]
      flushFaults := [some (.plain .interrupted)] }

theorem reliable_haltingWriter (framing : Framing) : (haltingWriter framing).sink.Reliable := by
  constructor <;> simp [haltingWriter, Acceptance.IsReliable, Fault.isRetried, Fault.kind]

/-- Blanks, a payload that ends with a carriage return, one with a record separator in it, a line
feed, a payload of four octets, and one of five that starts with a line feed. -/
def mixedPayloads : List Bytes :=
  [[0x20, 0x0d], [0x61, 0x62, 0x0d], [0x61, 0x1e], [0x0a], [0x64, 0x64, 0x64, 0x64],
    [0x0a, 0x65, 0x65, 0x65, 0x65]]

/-- What the line feed of the segment makes too large, and a record separator ambiguous, comes
through on lines. -/
theorem payloads_read_back_mixedPayloads :
    (∀ framing, (haltingWriter framing).sink.Reliable) ∧
    ((haltingWriter .recordSeparated).calls mixedPayloads).map FrameCall.answer =
      [.ok (), .ok (), .error (.ambiguous 0x1e 1), .error (.ambiguous 0x0a 0),
        .error (.tooLarge 5 4), .error (.tooLarge 6 4)] ∧
    (∀ s : Source,
      s.Readable [0x1e, 0x20, 0x0d, 0x0a, 0x1e, 0x61, 0x62, 0x0d, 0x0a] →
        (FrameReader.ofConfig { framing := .recordSeparated, limit := 4, chunk := 1 } s).answers 2 =
          [.ok (some [0x61, 0x62, 0x0d, 0x0a]), .ok none]) ∧
    ((haltingWriter .lineDelimited).calls mixedPayloads).map FrameCall.answer =
      [.ok (), .ok (), .ok (), .error (.ambiguous 0x0a 0), .ok (), .error (.tooLarge 5 4)] ∧
    ∀ s : Source,
      s.Readable [0x20, 0x0d, 0x0a, 0x61, 0x62, 0x0d, 0x0a, 0x61, 0x1e, 0x0a, 0x64, 0x64, 0x64,
        0x64, 0x0a] →
        (FrameReader.ofConfig { framing := .lineDelimited, limit := 4, chunk := 0 } s).answers 4 =
          [.ok (some [0x61, 0x62, 0x0d]), .ok (some [0x61, 0x1e]),
            .ok (some [0x64, 0x64, 0x64, 0x64]), .ok none] := by
  have hsent :
      FrameCall.sent ((haltingWriter .recordSeparated).calls mixedPayloads) =
          [[0x20, 0x0d], [0x61, 0x62, 0x0d]] ∧
        FrameCall.sent ((haltingWriter .lineDelimited).calls mixedPayloads) =
          [[0x20, 0x0d], [0x61, 0x62, 0x0d], [0x61, 0x1e], [0x64, 0x64, 0x64, 0x64]] := by
    decide +kernel
  obtain ⟨-, -, -, -, hseparated⟩ :=
    payloads_read_back (haltingWriter .recordSeparated) (reliable_haltingWriter _) mixedPayloads
  obtain ⟨-, -, -, -, hlines⟩ :=
    payloads_read_back (haltingWriter .lineDelimited) (reliable_haltingWriter _) mixedPayloads
  rw [hsent.1] at hseparated
  rw [hsent.2] at hlines
  exact ⟨reliable_haltingWriter, by decide +kernel, fun s hs => hseparated 1 s hs 1,
    by decide +kernel, fun s hs => hlines 0 s hs 1⟩

end FrameWriter

end WarcStream
