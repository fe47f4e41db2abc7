import WarcStream.Proofs.Message.Yield
/-!
# A message reader stops at the first failure

A reader of frames decodes the segments of its stream in their order, each of
them once, as long as they decode and the source does not fail. The first
failure is the last answer but for the end, and then nothing is read or decoded
any more. `Decodes` says what the reports of a stream come to, `Fused` what a
reader does in any number of calls, and `fused_of_decodes` ties them together:
the main statement is `decodes_segments`.
-/

namespace WarcStream

open Transport Bytes

/-- The segments of a stream that is cut at a delimiter: its runs that are not blank. -/
def Transport.Source.segments (d : UInt8) (s : Source) : List Bytes :=
  solid ((octetsOf s.live).splitOn d)

variable {version : ProtocolVersion} {reports : List Report} {segment : Bytes}
variable {segments : List Bytes} {m : Message} {ms : List Message} {e : MessageError}
variable {stop : Option MessageError}

/-! ## Reports -/

/-- **What reports come to**: the messages of the segments as long as they decode, and the first
failure, of a segment or of the source. -/
inductive Decodes (version : ProtocolVersion) :
    List Report → List Message → Option MessageError → Prop
  /-- Nothing is left to report. -/
  | ended : Decodes version [] [] none
  /-- The source failed. -/
  | failed {f : Fault} {rest : List Report} :
      Decodes version (.error f :: rest) [] (some (.ofFault f))
  /-- The segment is no message. -/
  | malformed {segment : Bytes} {rest : List Report} {e : DecodeError} :
      Message.ofSegment version segment = .error e →
      Decodes version (.ok segment :: rest) [] (some (.decode e))
  /-- The segment is a message. -/
  | message {segment : Bytes} {rest : List Report} {m : Message} {ms : List Message}
      {stop : Option MessageError} :
      Message.ofSegment version segment = .ok m → Decodes version rest ms stop →
      Decodes version (.ok segment :: rest) (m :: ms) stop

theorem exists_decodes (version : ProtocolVersion) (reports : List Report) :
    ∃ ms stop, Decodes version reports ms stop := by
  induction reports with
  | nil => exact ⟨[], none, .ended⟩
  | cons report rest ih =>
    match report with
    | .error f => exact ⟨[], _, .failed⟩
    | .ok segment =>
      cases hsegment : Message.ofSegment version segment with
      | error e => exact ⟨[], _, .malformed hsegment⟩
      | ok m =>
        obtain ⟨ms, stop, hrest⟩ := ih
        exact ⟨m :: ms, stop, .message hsegment hrest⟩

/-- The segments that are decoded: those of the messages, and the one that is none. -/
def attempted (ms : List Message) (stop : Option MessageError) (segments : List Bytes) :
    List Bytes :=
  segments.take (ms.length + if stop.any MessageError.isDecode then 1 else 0)

/-- A decode error is about the segment as it is. -/
theorem segment_of_error {e : DecodeError} (h : Message.ofSegment version segment = .error e) :
    e.segment = segment := by
  unfold Message.ofSegment at h
  split at h
  · cases h
    rfl
  · rename_i v _
    cases hv : Message.ofStructured version v with
    | ok m =>
      rw [hv] at h
      cases h
    | error reason =>
      rw [hv] at h
      cases h
      rfl

namespace Decodes

/-- The messages are those of the first segments. -/
theorem messages (h : Decodes version reports ms stop) :
    List.Forall₂ (fun segment m => Message.ofSegment version segment = .ok m)
      ((segmentsOf reports).take ms.length) ms := by
  induction h with
  | ended => exact .nil
  | failed => exact .nil
  | malformed _ => exact .nil
  | message hsegment _ ih => exact .cons hsegment ih

/-- Without an error, there is a message for each segment. -/
theorem length_eq_of_none (h : Decodes version reports ms none) :
    (segmentsOf reports).length = ms.length := by
  generalize hstop : (none : Option MessageError) = stop at h
  induction h with
  | ended => rfl
  | failed => cases hstop
  | malformed _ => cases hstop
  | message _ _ ih => exact congrArg (· + 1) (ih hstop)

/-- A decode error is the one of the next segment. -/
theorem segment_of_decode {e : DecodeError} (h : Decodes version reports ms (some (.decode e))) :
    (segmentsOf reports)[ms.length]? = some e.segment ∧
      Message.ofSegment version e.segment = .error e := by
  generalize hstop : some (MessageError.decode e) = stop at h
  induction h with
  | ended => cases hstop
  | failed => cases hstop
  | malformed hsegment =>
    cases hstop
    rw [segment_of_error hsegment]
    exact ⟨rfl, hsegment⟩
  | message _ _ ih => exact ih hstop

/-- Any other error is the first failure of the source. -/
theorem fault_of_not_decode (h : Decodes version reports ms (some e)) (he : e.isDecode = false) :
    ∃ f, e = .ofFault f ∧ (faultsOf reports).head? = some f := by
  generalize hstop : some e = stop at h
  induction h with
  | ended => cases hstop
  | @failed f rest =>
    cases hstop
    exact ⟨f, rfl, rfl⟩
  | malformed _ =>
    cases hstop
    cases he
  | message _ _ ih => exact ih hstop

/-- Where the source does not fail, the segments are decoded up to the first one that is no
message. -/
theorem of_segments (stop : Option DecodeError) {rest : List Bytes}
    (hsegments : List.Forall₂ (fun segment m => Message.ofSegment version segment = .ok m)
      segments ms)
    (hrest : match stop with
      | none => rest = []
      | some e => ∃ segment behind, rest = segment :: behind ∧
          Message.ofSegment version segment = .error e) :
    Decodes version ((segments ++ rest).map .ok) ms (stop.map .decode) := by
  induction hsegments with
  | nil =>
    match stop, hrest with
    | none, hnil =>
      rw [hnil]
      exact .ended
    | some e, ⟨segment, behind, hcons, herror⟩ =>
      rw [hcons]
      exact .malformed herror
  | cons hsegment _ ih => exact .message hsegment ih

end Decodes

/-! ## Readers -/

namespace MessageReader

variable {r next : MessageReader} {reader : FrameReader}

/-- The segment that the next call decodes, if it comes to one. -/
def segment? (r : MessageReader) : Option Bytes :=
  if r.done then none
  else
    match r.source with
    | .items _ => none
    | .frames reader =>
      match reader.next.1 with
      | .ok segment => segment
      | .error _ => none

/-- The segments that the next `n` calls decode, in their order. -/
def decoded : Nat → MessageReader → List Bytes
  | 0, _ => []
  | n + 1, r => r.segment?.toList ++ decoded n r.next.2

/-- **What a reader does in any number of calls**: it decodes these segments and yields these
messages, then the error if there is one, and then nothing. It counts the messages, and behind the
last answer it stays as it is, its source included. -/
structure Fused (r : MessageReader) (segments : List Bytes) (ms : List Message)
    (stop : Option MessageError) : Prop where
  yields : r.Yields ms stop
  decoded_eq : ∀ n, r.decoded n = segments.take n
  count_eq : ∀ n, (r.after n).count = r.count + min n ms.length
  after_eq : ∀ n, r.after (ms.length + 1 + n) = r.after (ms.length + 1)

/-- A reader that has come to the end stays as it is. -/
theorem after_of_done (h : r.done = true) (n : Nat) : r.after n = r := by
  induction n with
  | zero => rfl
  | succ n ih =>
    have hnext : r.next = (.ok none, r) := by rw [MessageReader.next, if_pos h]
    rw [after, hnext, ih]

theorem decoded_of_done (h : r.done = true) (n : Nat) : r.decoded n = [] := by
  induction n with
  | zero => rfl
  | succ n ih =>
    have hnext : r.next = (.ok none, r) := by rw [MessageReader.next, if_pos h]
    have hsegment : r.segment? = none := by rw [segment?, if_pos h]
    rw [decoded, hnext, hsegment, ih]
    rfl

/-- The last answer ends the run. -/
theorem fused_of_done (hyields : r.Yields [] stop) (hnext : r.next.2 = next)
    (hdone : next.done = true) (hcount : next.count = r.count) :
    r.Fused r.segment?.toList [] stop := by
  refine ⟨hyields, fun n => ?_, fun n => ?_, fun n => ?_⟩
  · cases n with
    | zero => rfl
    | succ n =>
      rw [decoded, hnext, decoded_of_done hdone, List.append_nil]
      cases r.segment? <;> simp
  · cases n with
    | zero => rfl
    | succ n => rw [after, hnext, after_of_done hdone, hcount, List.length_nil, Nat.min_zero]; rfl
  · rw [List.length_nil, Nat.zero_add, Nat.add_comm, after, after, hnext, after_of_done hdone]
    rfl

/-- A message goes before what the rest of the run comes to. -/
theorem Fused.cons (h : next.Fused segments ms stop) (hnext : r.next = (.ok (some m), next))
    (hcount : next.count = r.count + 1) (hsegment : r.segment? = some segment) :
    r.Fused (segment :: segments) (m :: ms) stop := by
  refine ⟨h.yields.cons hnext, fun n => ?_, fun n => ?_, fun n => ?_⟩
  · cases n with
    | zero => rfl
    | succ n =>
      rw [decoded, hnext, hsegment, h.decoded_eq n]
      rfl
  · cases n with
    | zero => rw [after, Nat.zero_min, Nat.add_zero]
    | succ n =>
      rw [after, hnext, h.count_eq n, hcount, List.length_cons]
      omega
  · rw [List.length_cons, Nat.add_right_comm, after, after, hnext]
    exact h.after_eq n

/-- One call of a reader of frames within its limit takes the first of its reports. -/
theorem next_of_report (hdone : r.done = false) (hversion : r.config.version = version)
    (hsource : r.source = .frames reader) (hsound : reader.Sound)
    (hreports : reader.reports = reports) :
    ∃ later, later.Sound ∧ later.reports = reports.tail ∧
      r.next = r.taking (MessageSource.ofFrame version (Report.answer reports.head?))
        (.frames later) ∧
      r.segment? = (Report.answer reports.head?).toOption.join := by
  obtain ⟨later, hnext, htail, hlater⟩ := hsound.next_eq
  rw [hreports] at hnext htail
  refine ⟨later, hlater, htail, next_of_frame hdone hsource ?_, ?_⟩
  · rw [MessageSource.nextFrame_eq, hnext, hversion]
  · rw [segment?, if_neg (by simp [hdone]), hsource]
    simp only [hnext]
    cases Report.answer reports.head? <;> rfl

/-- **A reader of frames within its limit** does what its reports come to. -/
theorem fused_of_decodes (hdone : r.done = false) (hversion : r.config.version = version)
    (hsource : r.source = .frames reader) (hsound : reader.Sound)
    (h : Decodes version reports ms stop) (hreports : reader.reports = reports) :
    r.Fused (attempted ms stop (segmentsOf reports)) ms stop := by
  -- along the reports, each of which is one call
  induction h generalizing r reader with
  | ended =>
    obtain ⟨later, -, -, hnext, hsegment⟩ :=
      next_of_report hdone hversion hsource hsound hreports
    have hfused := fused_of_done (yields_of_end hnext rfl) (congrArg Prod.snd hnext) rfl rfl
    rw [hsegment] at hfused
    exact hfused
  | @failed f rest =>
    obtain ⟨later, -, -, hnext, hsegment⟩ :=
      next_of_report hdone hversion hsource hsound hreports
    have hfused := fused_of_done (yields_of_error hnext rfl) (congrArg Prod.snd hnext) rfl rfl
    rw [hsegment] at hfused
    exact hfused
  | @malformed segment rest e herror =>
    obtain ⟨later, -, -, hnext, hsegment⟩ :=
      next_of_report hdone hversion hsource hsound hreports
    have hanswer : MessageSource.ofFrame version (Report.answer (some (.ok segment))) =
        .error (.decode e) := by
      rw [Report.answer, MessageSource.ofFrame, herror]
      rfl
    rw [List.head?_cons, hanswer] at hnext
    have hfused := fused_of_done (yields_of_error hnext rfl) (congrArg Prod.snd hnext) rfl rfl
    rw [hsegment] at hfused
    exact hfused
  | @message segment rest m ms stop hm _ ih =>
    obtain ⟨later, hlater, htail, hnext, hsegment⟩ :=
      next_of_report hdone hversion hsource hsound hreports
    have hanswer : MessageSource.ofFrame version (Report.answer (some (.ok segment))) =
        .ok (some m) := by
      rw [Report.answer, MessageSource.ofFrame, hm]
      rfl
    rw [List.head?_cons, hanswer] at hnext
    have hrest := ih (r := { r with source := .frames later, count := r.count + 1 }) hdone hversion
      rfl hlater htail
    have hfused := hrest.cons hnext rfl hsegment
    have hlist : attempted (m :: ms) stop (segmentsOf (.ok segment :: rest)) =
        segment :: attempted ms stop (segmentsOf rest) := by
      rw [attempted, attempted, List.length_cons, Nat.add_right_comm]
      rfl
    rw [hlist]
    exact hfused

/-- **A reader of frames** yields what the segments of its stream come to, where no run of the stream
is over the limit. -/
theorem yields_of_decodes {c : MessageConfig} {s : Source} {octets : Bytes} {framing : Framing}
    (hframing : c.format.framing? = some framing) (hs : s.Delivers octets)
    (hfits : Fits framing.delimiter c.limit octets)
    (h : Decodes c.version ((solid (octets.splitOn framing.delimiter)).map .ok) ms stop) :
    (ofConfig c s).Yields ms stop := by
  have hholds := FrameReader.holds_ofConfig (c := c.frames framing) hs hfits
  have hsource := source_of_framing hframing s
  exact (fused_of_decodes rfl rfl hsource hholds.sound h hholds.reports_eq).yields

/-- **A reader of frames stops at the first failure and accounts for every segment.** Where no run
of the stream is over the limit, the first segments decode to the messages handed out. Then there is
the end of the stream behind the last of them, the decode error of the next segment as it is, or the
first failure of the source, and then nothing. Each segment is decoded once, up to the one that
fails to; the messages are counted; and behind the last answer the reader and its source stay as
they are, so that no more reads are made. -/
theorem decodes_segments (c : MessageConfig) (s : Source) {framing : Framing}
    (hframing : c.format.framing? = some framing)
    (hfits : Fits framing.delimiter c.limit (octetsOf s.live)) :
    ∃ ms stop, (ofConfig c s).Yields ms stop ∧
      List.Forall₂ (fun segment m => Message.ofSegment c.version segment = .ok m)
        ((s.segments framing.delimiter).take ms.length) ms ∧
      (stop = none → (s.segments framing.delimiter).length = ms.length) ∧
      (∀ e, stop = some (.decode e) →
        (s.segments framing.delimiter)[ms.length]? = some e.segment ∧
          Message.ofSegment c.version e.segment = .error e) ∧
      (∀ e, stop = some e → e.isDecode = false →
        ∃ f, e = .ofFault f ∧ (failuresOf s.live).head? = some f) ∧
      (∀ n, (ofConfig c s).decoded n =
        ((s.segments framing.delimiter).take
          (ms.length + if stop.any MessageError.isDecode then 1 else 0)).take n) ∧
      (∀ n, ((ofConfig c s).after n).count = min n ms.length) ∧
      ∀ n, (ofConfig c s).after (ms.length + 1 + n) = (ofConfig c s).after (ms.length + 1) := by
  let reader := FrameReader.ofConfig (c.frames framing) s
  have hsource : (ofConfig c s).source = .frames reader := by
    simp only [ofConfig, hframing]
    rfl
  have hsegments : segmentsOf reader.reports = s.segments framing.delimiter :=
    segmentsOf_transcript framing.delimiter [] s.live
  have hfaults : faultsOf reader.reports = failuresOf s.live :=
    faultsOf_transcript framing.delimiter [] s.live
  obtain ⟨ms, stop, hdecodes⟩ := exists_decodes c.version reader.reports
  have hfused := fused_of_decodes (r := ofConfig c s) rfl rfl hsource
    (FrameReader.sound_ofConfig hfits) hdecodes rfl
  rw [hsegments] at hfused
  refine ⟨ms, stop, hfused.yields, hsegments ▸ hdecodes.messages, ?_, ?_, ?_, hfused.decoded_eq, ?_,
    hfused.after_eq⟩
  · rintro rfl
    rw [← hsegments]
    exact hdecodes.length_eq_of_none
  · rintro e rfl
    rw [← hsegments]
    exact hdecodes.segment_of_decode
  · rintro e rfl he
    rw [← hfaults]
    exact hdecodes.fault_of_not_decode he
  · intro n
    have hcount := hfused.count_eq n
    rwa [show (ofConfig c s).count = 0 from rfl, Nat.zero_add] at hcount

/-- A line that is a message, a line that is none, and one more. -/
def threeLines : Source :=
  ⟨[.data (Text.bytes "\"EndOfFile\"\nx\n"), .data (Text.bytes "y\n")], 0⟩

theorem decodes_segments_threeLines :
    Fits 0x0a 11 (octetsOf threeLines.live) ∧
      ∃ ms stop, (ofConfig { format := .jsonLines, limit := 11 } threeLines).Yields ms stop ∧
        (∀ n, (ofConfig { format := .jsonLines, limit := 11 } threeLines).decoded n =
          ([Text.bytes "\"EndOfFile\"", Text.bytes "x", Text.bytes "y"].take
            (ms.length + if stop.any MessageError.isDecode then 1 else 0)).take n) ∧
        ∀ n, (ofConfig { format := .jsonLines, limit := 11 } threeLines).after (ms.length + 1 + n) =
          (ofConfig { format := .jsonLines, limit := 11 } threeLines).after (ms.length + 1) := by
  have hfits : Fits 0x0a 11 (octetsOf threeLines.live) := by
    unfold Fits
    decide
  have hsegments : threeLines.segments 0x0a =
      [Text.bytes "\"EndOfFile\"", Text.bytes "x", Text.bytes "y"] := by
    decide
  obtain ⟨ms, stop, hyields, -, -, -, -, hdecoded, -, hafter⟩ :=
    decodes_segments { format := .jsonLines, limit := 11 } threeLines rfl hfits
  rw [show Framing.delimiter .lineDelimited = 0x0a from rfl, hsegments] at hdecoded
  exact ⟨hfits, ms, stop, hyields, hdecoded, hafter⟩

/-- The third line is never read, however often the reader is called. -/
example :
    (ofConfig { format := .jsonLines, limit := 11 } threeLines).decoded 5 =
        [Text.bytes "\"EndOfFile\"", Text.bytes "x"] ∧
      ((ofConfig { format := .jsonLines, limit := 11 } threeLines).after 5).source.source.reads =
        1 := by
  decide +kernel

end MessageReader

end WarcStream
