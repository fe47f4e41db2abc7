import WarcStream.Proofs.Message.Writing
/-!
# What a writer puts on any sink

`WriteCall.Accounted` says what one call of the writer comes to, whatever the
sink does with the octets of the frame: the frame of the message and a flush, a
part of the frame, or nothing. Every call is accounted for (`accounted_write`),
so what a sink has taken in the end is what the calls have put there, one behind
the other (`taken_eq_put`).
-/

namespace WarcStream

open Transport

/-! ## One call -/

/-- A call of a writer: the message and the answer, and the sink before it and after it. -/
structure WriteCall where
  message : Message
  answer : Except MessageError Unit
  before : Sink
  after : Sink

namespace WriteCall

variable {c : MessageConfig} {call : WriteCall}

/-- The octets that the sink took in the call. -/
def put (call : WriteCall) : Bytes := call.after.taken.drop call.before.taken.length

/-- The answers of its script that the sink gave to the write calls. Behind its script, a sink takes
all that it is offered. -/
def used (call : WriteCall) : List Acceptance :=
  call.before.acceptances.take (call.before.acceptances.length - call.after.acceptances.length)

/-- **All that one call can come to**, whatever the sink does. What has a call made again is never
reported. -/
inductive Outcome (c : MessageConfig) (call : WriteCall) : Prop
  /-- The sink took the frame of the message, and a flush succeeded when it had taken it. -/
  | sent {full : Sink} :
      call.answer = .ok () → c.encode call.message = .ok call.put →
      full.taken = call.after.taken → full.flushOnce = (.ok (), call.after) → Outcome c call
  /-- The message cannot be encoded, and no call was made on the sink. -/
  | refused {e : MessageError} :
      call.answer = .error e → e.isTransport = false → c.encode call.message = .error e →
      call.after = call.before → Outcome c call
  /-- The sink took nothing when it was offered the rest of the frame. It was not flushed. -/
  | closed {frame : Bytes} :
      call.answer = .error (.frame .closed) → c.encode call.message = .ok frame →
      call.put <+: frame → call.put ≠ frame → call.after.flushes = call.before.flushes →
      Outcome c call
  /-- The sink failed when it was offered the rest of the frame, and what is reported is the last
  answer that it gave. It was not flushed. -/
  | failed {frame : Bytes} {f : Fault} :
      call.answer = .error (.ofFault f) → f.isRetried = false →
      .fault f :: call.after.acceptances <:+ call.before.acceptances →
      c.encode call.message = .ok frame → call.put <+: frame → call.put ≠ frame →
      call.after.flushes = call.before.flushes → Outcome c call
  /-- The sink took the frame of the message, and it failed when it was flushed. What is reported is
  the last answer that it gave to a flush call. -/
  | unflushed {full : Sink} {f : Fault} :
      call.answer = .error (.ofFault f) → f.isRetried = false →
      some f :: call.after.flushFaults <:+ call.before.flushFaults →
      c.encode call.message = .ok call.put → full.taken = call.after.taken →
      full.flushOnce = (.error f, call.after) → Outcome c call

/-- **A call is accounted for**: it comes to one of its outcomes, what the sink had taken stays, and
the sink is said to be closed just if it took nothing when it was offered something. -/
structure Accounted (c : MessageConfig) (call : WriteCall) : Prop where
  outcome : call.Outcome c
  taken_eq : call.after.taken = call.before.taken ++ call.put
  closed_iff : call.answer = .error (.frame .closed) ↔ .atMost 0 ∈ call.used

theorem put_eq {part : Bytes} (h : call.after.taken = call.before.taken ++ part) :
    call.put = part := by
  rw [put, h, List.drop_left]

theorem used_eq {used : List Acceptance}
    (h : call.before.acceptances = used ++ call.after.acceptances) : call.used = used := by
  have hlen : call.before.acceptances.length - call.after.acceptances.length = used.length := by
    rw [h, List.length_append]
    omega
  rw [WriteCall.used, hlen, h, List.take_left]

/-- A message that cannot be encoded is refused for what it is, not for the sink. -/
theorem isTransport_of_encode {m : Message} {e : MessageError} (h : c.encode m = .error e) :
    e.isTransport = false := by
  rw [MessageConfig.encode_eq] at h
  split at h
  · split at h
    · cases h
      rfl
    · cases h
  · cases h
    rfl

theorem accounted_of_refused {e : MessageError} (hencode : c.encode call.message = .error e)
    (hanswer : call.answer = .error e) (hafter : call.after = call.before) :
    call.Accounted c := by
  have hkind := isTransport_of_encode hencode
  have hput : call.put = [] := put_eq (by rw [hafter, List.append_nil])
  have hused : call.used = [] := used_eq (by rw [hafter, List.nil_append])
  refine ⟨.refused hanswer hkind hencode hafter, ?_, ?_⟩
  · rw [hput, hafter, List.append_nil]
  · rw [hused, hanswer]
    simp only [List.not_mem_nil, iff_false]
    intro h
    cases h
    cases hkind

theorem outcome_of_delivered {frame : Bytes} {delivered : Except FrameError Unit}
    (hencode : c.encode call.message = .ok frame)
    (hanswer : call.answer = delivered.mapError .frame)
    (h : Delivered call.before frame delivered call.after) : call.Outcome c := by
  have hcut {part rest : Bytes} (hsplit : frame = part ++ rest) (hrest : rest ≠ []) :
      part <+: frame ∧ part ≠ frame := by
    refine ⟨⟨rest, hsplit.symm⟩, fun hall => hrest ?_⟩
    rw [hsplit] at hall
    exact List.self_eq_append_right.1 hall
  cases h with
  | sent htook _ hwaited honce =>
    obtain ⟨htaken, hlast, -⟩ := Delivered.taken_of_flushOnce htook hwaited honce
    refine .sent hanswer ?_ hlast honce
    rw [put_eq htaken]
    exact hencode
  | unflushed htook _ hwaited honce hlasting =>
    obtain ⟨htaken, hlast, -⟩ := Delivered.taken_of_flushOnce htook hwaited honce
    have hfault := Delivered.flushFaults_of_flushOnce htook hwaited honce
    refine .unflushed hanswer hlasting hfault ?_ hlast honce
    rw [put_eq htaken]
    exact hencode
  | closed hsplit hrest htook _ =>
    obtain ⟨hbegins, hproper⟩ := hcut hsplit hrest
    rw [← put_eq htook.taken_eq] at hbegins hproper
    exact .closed hanswer hencode hbegins hproper htook.flushes_eq
  | failed hsplit hrest htook _ hfault hlasting =>
    obtain ⟨hbegins, hproper⟩ := hcut hsplit hrest
    rw [← put_eq htook.taken_eq] at hbegins hproper
    exact .failed hanswer hlasting hfault hencode hbegins hproper htook.flushes_eq

theorem accounted_of_delivered {frame : Bytes} {delivered : Except FrameError Unit}
    (hencode : c.encode call.message = .ok frame)
    (hanswer : call.answer = delivered.mapError .frame)
    (h : Delivered call.before frame delivered call.after) : call.Accounted c := by
  obtain ⟨part, used, htaken, hacceptances, hclosed⟩ := h.exists_took
  refine ⟨outcome_of_delivered hencode hanswer h, ?_, ?_⟩
  · rw [put_eq htaken, htaken]
  · rw [used_eq hacceptances, ← hclosed, hanswer]
    cases delivered with
    | ok _ => simp [Except.mapError]
    | error e => simp [Except.mapError]

end WriteCall

/-! ## Many calls -/

namespace MessageWriter

variable {w : MessageWriter} {m : Message}

/-- The calls that offer messages one after the other. -/
def calls : MessageWriter → List Message → List WriteCall
  | _, [] => []
  | w, m :: ms =>
    let (answer, next) := w.write m
    ⟨m, answer, w.sink, next.sink⟩ :: next.calls ms

/-- **One call is accounted for**, and it is counted just if it succeeds. -/
theorem accounted_write (w : MessageWriter) (m : Message) :
    WriteCall.Accounted w.config ⟨m, (w.write m).1, w.sink, (w.write m).2.sink⟩ ∧
      (w.write m).2.config = w.config ∧
      (w.write m).2.written = w.written + if (w.write m).1.isOk then 1 else 0 := by
  cases hencode : w.config.encode m with
  | error e =>
    have hwrite : w.write m = (.error e, w) := by simp only [write, hencode]
    rw [hwrite]
    exact ⟨WriteCall.accounted_of_refused hencode rfl rfl, rfl, rfl⟩
  | ok frame =>
    have hdelivered := delivered_deliver w.sink frame
    rcases hdeliver : deliver w.sink frame with ⟨e | _, sink⟩
    · have hwrite : w.write m = (.error (.frame e), { w with sink }) := by
        simp only [write, hencode, hdeliver]
      rw [hdeliver] at hdelivered
      rw [hwrite]
      exact ⟨WriteCall.accounted_of_delivered hencode rfl hdelivered, rfl, rfl⟩
    · have hwrite : w.write m = (.ok (), { w with sink, written := w.written + 1 }) := by
        simp only [write, hencode, hdeliver]
      rw [hdeliver] at hdelivered
      rw [hwrite]
      exact ⟨WriteCall.accounted_of_delivered hencode rfl hdelivered, rfl, rfl⟩

/-- **What a writer puts on any sink**, in any number of calls. Each call is accounted for: it puts
the frame of its message there and flushes, or a part of the frame, or nothing; and where it reports
a fault of the sink, that is the last answer of the sink's script that it came to. What the sink has
taken in the end is what the calls have put there, one behind the other, and the messages that are
counted are those whose call succeeded. -/
theorem taken_eq_put (w : MessageWriter) (ms : List Message) :
    (w.calls ms).map (fun call => (call.message, call.answer)) = (w.offer ms).1 ∧
    (∀ call ∈ w.calls ms, call.Accounted w.config) ∧
    (w.offer ms).2.sink.taken = w.sink.taken ++ (w.calls ms).flatMap WriteCall.put ∧
    (w.offer ms).2.written = w.written + (accepted (w.offer ms).1).length := by
  induction ms generalizing w with
  | nil => exact ⟨rfl, by simp [calls], (List.append_nil _).symm, rfl⟩
  | cons m ms ih =>
    obtain ⟨haccounted, hconfig, hwritten⟩ := w.accounted_write m
    obtain ⟨hanswers, hcalls, htaken, hcount⟩ := ih (w.write m).2
    refine ⟨?_, ?_, ?_, ?_⟩
    · simp only [calls, offer, List.map_cons, hanswers]
    · intro call hcall
      rcases List.mem_cons.1 hcall with rfl | hcall
      · exact haccounted
      · rw [← hconfig]
        exact hcalls call hcall
    · simp only [calls, offer, List.flatMap_cons]
      rw [htaken, ← List.append_assoc]
      exact congrArg (· ++ _) haccounted.taken_eq
    · simp only [offer]
      rw [hcount, hwritten, accepted, accepted, List.filter_cons]
      split
      · simp only [List.map_cons, List.length_cons]
        omega
      · rfl

/-- A sink that takes three octets, is full for now, and then takes nothing: the first line is cut
short there, and the second comes whole behind it. -/
example :
    let sink : Sink := { acceptances := [.atMost 3, .fault (.plain .wouldBlock), .atMost 0] }
    ((MessageWriter.mk { format := .jsonLines } sink 0).calls [.endOfFile, .endOfFile]).map
        (fun call => (call.put, call.answer)) =
      [(Text.bytes "\x7b\"E", .error (.frame .closed)),
        (Text.bytes "\x7b\"EndOfFile\":\x7b\x7d\x7d\n", .ok ())] := by
  decide +kernel

end MessageWriter

end WarcStream
