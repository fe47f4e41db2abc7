import WarcStream.Proofs.Frame.Wire
import WarcStream.Proofs.Transport.Reliable
/-!
# What a writer of frames puts on any sink

A sink may take its octets in parts, be interrupted, take nothing, or fail, in
any call of a writer and at any octet. `Delivered` says what comes of the octets
of one frame on such a sink. A call of a frame writer puts its frame there, or
the start of it, or nothing (`FrameWriter.accounted_write`), and what a sink has
taken in the end is what the calls have put there, one behind the other
(`FrameWriter.taken_calls`).
-/

namespace WarcStream

open Transport

/-! ## One delivery -/

/-- All that can come of octets that are written and flushed. -/
inductive Delivered (sink : Sink) (octets : Bytes) : Except FrameError Unit → Sink → Prop
  /-- All octets are taken, and a flush succeeded behind them. -/
  | sent {full last after : Sink} {used : List Acceptance} :
      sink.Took full octets used → .atMost 0 ∉ used → full.Waited last →
      last.flushOnce = (.ok (), after) → Delivered sink octets (.ok ()) after
  /-- All octets are taken, but a flush failed for good. -/
  | unflushed {full last after : Sink} {used : List Acceptance} {f : Fault} :
      sink.Took full octets used → .atMost 0 ∉ used → full.Waited last →
      last.flushOnce = (.error f, after) → f.isRetried = false →
      Delivered sink octets (.error (.transport f)) after
  /-- A write took nothing, and there are octets left. -/
  | closed {after : Sink} {part rest : Bytes} {used : List Acceptance} :
      octets = part ++ rest → rest ≠ [] → sink.Took after part used → .atMost 0 ∈ used →
      Delivered sink octets (.error .closed) after
  /-- A write failed for good, with the answer in front of those that are left, and there are octets
  left. -/
  | failed {after : Sink} {part rest : Bytes} {used : List Acceptance} {f : Fault} :
      octets = part ++ rest → rest ≠ [] → sink.Took after part used → .atMost 0 ∉ used →
      .fault f :: after.acceptances <:+ sink.acceptances → f.isRetried = false →
      Delivered sink octets (.error (.transport f)) after

theorem delivered_deliver (sink : Sink) (octets : Bytes) :
    Delivered sink octets (deliver sink octets).1 (deliver sink octets).2 := by
  have hwritten := sink.written_writeAll octets
  unfold deliver writeOctets
  generalize sink.writeAll octets = written at hwritten
  obtain ⟨answer, full⟩ := written
  dsimp only at hwritten
  cases hwritten with
  | closed hsplit hrest htook hnothing => exact .closed hsplit hrest htook hnothing
  | failed hsplit hrest htook hsome hfault hlasting =>
    exact .failed hsplit hrest htook hsome hfault hlasting
  | all htook hsome =>
    obtain ⟨last, hwaited, hflush, hlasting⟩ := full.flush_cases
    simp only [flushOctets]
    rw [hflush] at hlasting ⊢
    match honce : last.flushOnce with
    | (.ok (), after) => exact .sent htook hsome hwaited honce
    | (.error f, after) =>
      have hf : f.isRetried = false := hlasting f (by rw [honce])
      exact .unflushed htook hsome hwaited honce hf

namespace Delivered

variable {sink full last after : Sink} {octets part rest : Bytes} {used : List Acceptance}
variable {answer : Except FrameError Unit} {flushed : Except Fault Unit}

/-- Flush calls add nothing to what the write calls before them left behind. -/
theorem taken_of_flushOnce (htook : sink.Took full octets used) (hwaited : full.Waited last)
    (honce : last.flushOnce = (flushed, after)) :
    after.taken = sink.taken ++ octets ∧ last.taken = after.taken ∧
      sink.acceptances = used ++ after.acceptances := by
  have hlast := last.waited_flushOnce
  rw [honce] at hlast
  have hafter := hwaited.trans hlast
  refine ⟨?_, hlast.taken_eq.symm, ?_⟩
  · rw [hafter.taken_eq, htook.taken_eq]
  · rw [hafter.acceptances_eq, htook.acceptances_eq]

/-- A flush call fails with the answer in front of those that are left. -/
theorem flushFaults_of_flushOnce {f : Fault} (htook : sink.Took full octets used)
    (hwaited : full.Waited last) (honce : last.flushOnce = (.error f, after)) :
    some f :: after.flushFaults <:+ sink.flushFaults := by
  have hsuffix := hwaited.flushFaults_suffix
  rwa [htook.flushFaults_eq, Sink.flushFaults_of_flushOnce_error honce] at hsuffix

/-- What the sink had taken stays, and it took nothing when it was offered something just if it is
said to be closed. -/
theorem exists_took (h : Delivered sink octets answer after) :
    ∃ part used, after.taken = sink.taken ++ part ∧
      sink.acceptances = used ++ after.acceptances ∧
      (answer = .error .closed ↔ .atMost 0 ∈ used) := by
  cases h with
  | sent htook hsome hwaited honce =>
    obtain ⟨htaken, -, hused⟩ := taken_of_flushOnce htook hwaited honce
    exact ⟨_, _, htaken, hused, by simp [hsome]⟩
  | unflushed htook hsome hwaited honce _ =>
    obtain ⟨htaken, -, hused⟩ := taken_of_flushOnce htook hwaited honce
    exact ⟨_, _, htaken, hused, by simp [hsome]⟩
  | closed _ _ htook hnothing =>
    exact ⟨_, _, htook.taken_eq, htook.acceptances_eq, by simp [hnothing]⟩
  | failed _ _ htook hsome =>
    exact ⟨_, _, htook.taken_eq, htook.acceptances_eq, by simp [hsome]⟩

/-- The sink took the start of the octets, and all of them if the delivery succeeded. -/
theorem exists_part (h : Delivered sink octets answer after) :
    ∃ part, after.taken = sink.taken ++ part ∧ part <+: octets ∧
      (answer = .ok () → part = octets) := by
  cases h with
  | sent htook _ hwaited honce =>
    obtain ⟨htaken, -, -⟩ := taken_of_flushOnce htook hwaited honce
    exact ⟨octets, htaken, List.prefix_refl octets, fun _ => rfl⟩
  | unflushed htook _ hwaited honce _ =>
    obtain ⟨htaken, -, -⟩ := taken_of_flushOnce htook hwaited honce
    exact ⟨octets, htaken, List.prefix_refl octets, nofun⟩
  | closed hsplit _ htook _ => exact ⟨_, htook.taken_eq, ⟨_, hsplit.symm⟩, nofun⟩
  | failed hsplit _ htook => exact ⟨_, htook.taken_eq, ⟨_, hsplit.symm⟩, nofun⟩

end Delivered

/-- A sink that does not fail takes all octets of a delivery, and stays as it is. -/
theorem Transport.Sink.Reliable.deliver {sink : Sink} (h : sink.Reliable) (octets : Bytes) :
    ∃ next, WarcStream.deliver sink octets = (.ok (), next) ∧ next.taken = sink.taken ++ octets ∧
      next.Reliable := by
  obtain ⟨sent, hwrite, htaken, hsent⟩ := h.writeAll octets
  obtain ⟨last, hflush, hlast, hreliable⟩ := hsent.flush
  refine ⟨last, ?_, by rw [hlast, htaken], hreliable⟩
  simp only [WarcStream.deliver, writeOctets, hwrite, flushOctets, hflush]

/-! ## Calls of a frame writer -/

/-- A call of a frame writer: the payload and the answer, and the sink before it and after it. -/
structure FrameCall where
  payload : Bytes
  answer : Except FrameError Unit
  before : Sink
  after : Sink

namespace FrameCall

variable {c : FrameConfig} {call : FrameCall}

/-- The octets that the sink took in the call. -/
def put (call : FrameCall) : Bytes := call.after.taken.drop call.before.taken.length

/-- The octets of the call behind its record separator. -/
def body (call : FrameCall) : Bytes := call.put.drop 1

theorem put_eq {part : Bytes} (h : call.after.taken = call.before.taken ++ part) :
    call.put = part := by
  rw [put, h, List.drop_left]

/-- **A call is accounted for**: what the sink had taken stays, and behind it comes the frame of the
payload if the call succeeded. If it failed, the start of the frame does; and nothing at all, if the
payload is over the limit or ambiguous. -/
structure Accounted (c : FrameConfig) (call : FrameCall) : Prop where
  taken_eq : call.after.taken = call.before.taken ++ call.put
  isPrefix : call.put <+: c.framing.frame call.payload
  of_ok : call.answer = .ok () → call.put = c.framing.frame call.payload
  within : call.put ≠ [] → c.framing.segmentLength call.payload.length ≤ c.limit
  clean : call.put ≠ [] → c.framing.checkPayload call.payload = .ok ()

end FrameCall

namespace FrameWriter

variable {w : FrameWriter} {payload : Bytes}

/-- The calls that write payloads one after the other, whatever comes of each. -/
def calls : FrameWriter → List Bytes → List FrameCall
  | _, [] => []
  | w, payload :: rest =>
    let (answer, next) := w.write payload
    ⟨payload, answer, w.sink, next.sink⟩ :: next.calls rest

/-- The writer behind these calls. -/
def writeEach (w : FrameWriter) (payloads : List Bytes) : FrameWriter :=
  payloads.foldl (fun w payload => (w.write payload).2) w

/-- **One call is accounted for**, whatever the sink does. -/
theorem accounted_write (w : FrameWriter) (payload : Bytes) :
    FrameCall.Accounted w.config ⟨payload, (w.write payload).1, w.sink, (w.write payload).2.sink⟩ ∧
      (w.write payload).2.config = w.config := by
  cases hencode : w.config.encode payload with
  | error e =>
    have hwrite : w.write payload = (.error e, w) := by simp only [write, hencode]
    have hput : FrameCall.put ⟨payload, .error e, w.sink, w.sink⟩ = [] :=
      FrameCall.put_eq (List.append_nil _).symm
    rw [hwrite]
    refine ⟨⟨?_, ?_, nofun, fun hne => absurd hput hne, fun hne => absurd hput hne⟩, rfl⟩
    · rw [hput, List.append_nil]
    · rw [hput]
      exact List.nil_prefix
  | ok frame =>
    obtain ⟨rfl, hclean, hwithin⟩ := FrameConfig.of_encode_eq_ok hencode
    let delivered := deliver w.sink (w.config.framing.frame payload)
    have hwrite : w.write payload = (delivered.1, { w with sink := delivered.2 }) := by
      simp only [write, hencode, delivered]
    obtain ⟨part, htaken, hpart, hall⟩ := (delivered_deliver w.sink _).exists_part
    have hput : FrameCall.put ⟨payload, delivered.1, w.sink, delivered.2⟩ = part :=
      FrameCall.put_eq htaken
    rw [hwrite]
    refine ⟨⟨?_, ?_, fun hok => ?_, fun _ => hwithin, fun _ => hclean⟩, rfl⟩
    · rw [hput]
      exact htaken
    · rw [hput]
      exact hpart
    · rw [hput]
      exact hall hok

/-- **Every call is accounted for**, and the sink has taken what the calls have put there. -/
theorem taken_calls (w : FrameWriter) (payloads : List Bytes) :
    (w.calls payloads).map FrameCall.payload = payloads ∧
      (∀ call ∈ w.calls payloads, call.Accounted w.config) ∧
      (w.writeEach payloads).sink.taken =
        w.sink.taken ++ ((w.calls payloads).map FrameCall.put).flatten := by
  induction payloads generalizing w with
  | nil => exact ⟨rfl, by simp [calls], (List.append_nil _).symm⟩
  | cons payload rest ih =>
    obtain ⟨haccounted, hconfig⟩ := w.accounted_write payload
    obtain ⟨hpayloads, hcalls, htaken⟩ := ih (w.write payload).2
    refine ⟨?_, ?_, ?_⟩
    · simp only [calls, List.map_cons, hpayloads]
    · intro call hcall
      rcases List.mem_cons.1 hcall with rfl | hcall
      · exact haccounted
      · rw [← hconfig]
        exact hcalls call hcall
    · have hstep : w.writeEach (payload :: rest) = (w.write payload).2.writeEach rest := rfl
      rw [hstep, htaken, calls, List.map_cons, List.flatten_cons, ← List.append_assoc]
      exact congrArg (· ++ _) haccounted.taken_eq

end FrameWriter

end WarcStream
