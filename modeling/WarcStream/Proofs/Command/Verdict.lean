import WarcStream.Command.Program
import WarcStream.Proofs.Json.Roundtrip
import WarcStream.Proofs.Message.Stopping
import WarcStream.Proofs.Record.Validation
import Mathlib.Algebra.GroupWithZero.Nat
/-!
# The verdict on a stream

A check observes the messages of a reader one by one, and adds up the records
as they are closed. `Checking.Behind` says which messages have led to where a
check stands, with the records among them in its report; `Behind.take_cases` is
all that one more message can do and `Behind.run_cases` all that a stream can.
So the verdict and the report can be read off the messages alone, and so can
the position in a failure (`check_verdict`). A report that is printed as JSON is
read back with all that it counts (`CheckReport.parse_print`).
-/

namespace WarcStream

open Transport

variable {m : Message} {ms more : List Message} {stop : Option MessageError}

/-- The octets of a block that a message carries. -/
def Message.blockLength : Message → Nat
  | .blockChunk data => data.length
  | _ => 0

/-- **The report of a stream of these messages.** -/
def CheckReport.ofMessages (protocol : Nat) (ms : List Message) : CheckReport :=
  { protocol
    messages := ms.length
    records := ms.countP fun m => m.tag = .blockEnd
    chunks := ms.countP fun m => m.tag = .blockChunk
    blockLength := (ms.map Message.blockLength).sum
    endOfFile := ms.getLast? = some .endOfFile }

namespace CheckReport

variable {protocol : Nat}

/-- The report of records that are closed, before the stream has ended. -/
def ofClosed (protocol : Nat) (records : List SentRecord) : CheckReport :=
  { protocol
    records := records.length
    chunks := (records.map fun r => r.chunks.length).sum
    blockLength := (records.map fun r => r.chunks.flatten.length).sum }

/-- A record that is closed is counted. -/
theorem addRecord_ofClosed (protocol : Nat) (records : List SentRecord) (r : SentRecord) :
    (ofClosed protocol records).addRecord r.summary = ofClosed protocol (records ++ [r]) := by
  simp [addRecord, ofClosed, SentRecord.summary]

/-- A record is closed by one message, and its block is in its pieces. -/
theorem counts_messages (r : SentRecord) :
    (r.messages.countP fun m => m.tag = .blockEnd) = 1 ∧
      (r.messages.countP fun m => m.tag = .blockChunk) = r.chunks.length ∧
      (r.messages.map Message.blockLength).sum = r.chunks.flatten.length := by
  refine ⟨?_, ?_, ?_⟩
  · simp [SentRecord.messages, SentRecord.opening, List.countP_map, Function.comp_def, Message.tag]
  · simp [SentRecord.messages, SentRecord.opening, List.countP_map, Function.comp_def, Message.tag]
  · simp [SentRecord.messages, SentRecord.opening, Function.comp_def, Message.blockLength,
      List.length_flatten]

/-- **The messages of records** are counted as the records are. -/
theorem counts_records (records : List SentRecord) :
    ((records.flatMap SentRecord.messages).countP fun m => m.tag = .blockEnd) = records.length ∧
      ((records.flatMap SentRecord.messages).countP fun m => m.tag = .blockChunk) =
        (records.map fun r => r.chunks.length).sum ∧
      ((records.flatMap SentRecord.messages).map Message.blockLength).sum =
        (records.map fun r => r.chunks.flatten.length).sum := by
  induction records with
  | nil => exact ⟨rfl, rfl, rfl⟩
  | cons r records ih =>
    obtain ⟨hends, hchunks, hblocks⟩ := counts_messages r
    obtain ⟨hends', hchunks', hblocks'⟩ := ih
    rw [List.flatMap_cons, List.countP_append, List.countP_append, List.map_append, List.sum_append,
      hends, hchunks, hblocks, hends', hchunks', hblocks']
    exact ⟨Nat.add_comm _ _, rfl, rfl⟩

/-- Behind whole records the last message is the end of a block, if there is any. -/
theorem getLast?_records (records : List SentRecord) :
    (records.flatMap SentRecord.messages).getLast? ≠ some .endOfFile := by
  induction records using List.reverseRecOn with
  | nil => simp
  | append_singleton records r =>
    rw [List.flatMap_append, List.flatMap_singleton, SentRecord.messages, ← List.append_assoc,
      List.getLast?_concat]
    simp

/-- A whole stream ends with the end of the file, or with a record. -/
theorem getLast?_append_iff (records : List SentRecord) {tail : List Message}
    (htail : tail = [] ∨ tail = [.endOfFile]) :
    (records.flatMap SentRecord.messages ++ tail).getLast? = some .endOfFile ↔
      tail = [.endOfFile] := by
  rcases htail with rfl | rfl
  · simp [getLast?_records]
  · simp

/-- The report of a whole stream is that of its records, with all of its messages and its end. -/
theorem ofMessages_records (protocol : Nat) (records : List SentRecord) {tail : List Message}
    (htail : tail = [] ∨ tail = [.endOfFile]) :
    ofMessages protocol (records.flatMap SentRecord.messages ++ tail) =
      { ofClosed protocol records with
        messages := (records.flatMap SentRecord.messages ++ tail).length
        endOfFile := tail = [.endOfFile] } := by
  obtain ⟨hends, hchunks, hblocks⟩ := counts_records records
  have hlast := getLast?_append_iff records htail
  have htailCounts : (tail.countP fun m => m.tag = .blockEnd) = 0 ∧
      (tail.countP fun m => m.tag = .blockChunk) = 0 ∧ (tail.map Message.blockLength).sum = 0 := by
    rcases htail with rfl | rfl <;> exact ⟨rfl, rfl, rfl⟩
  simp only [ofMessages, ofClosed, List.countP_append, List.map_append, List.sum_append, hends,
    hchunks, hblocks, htailCounts, hlast, Nat.add_zero]

/-- A report is an object of numbers and a truth value. -/
theorem plain_document (r : CheckReport) : r.document.Plain (fun _ => True) 1 := by
  refine .object (fun _ _ => trivial) fun entry hentry => ?_
  rcases List.mem_append.1 hentry with hcount | hend
  · obtain ⟨count, -, rfl⟩ := List.mem_map.1 hcount
    exact .natural _
  · obtain rfl := List.mem_singleton.1 hend
    exact .bool _

/-- **A report is read back** from its JSON text, with its entries in the order of their names. -/
theorem parse_print (r : CheckReport) :
    Json.parse (r.print .json) = .ok (.object [
      ("block_bytes", .natural (.ofNat r.blockLength)),
      ("chunks", .natural (.ofNat r.chunks)),
      ("end_of_file", .bool r.endOfFile),
      ("messages", .natural (.ofNat r.messages)),
      ("protocol", .natural (.ofNat r.protocol)),
      ("records", .natural (.ofNat r.records))]) := by
  have hblank : ∀ b ∈ [Bytes.lineFeed], Json.isSpace b = true := by
    intro b hb
    obtain rfl := List.mem_singleton.1 hb
    rfl
  exact Json.parse_print r.plain_document (by decide) hblank

end CheckReport

/-- The end of the file has been observed just if it is what a state is behind. -/
theorem SequenceState.Behind.eq_finished_iff {s : SequenceState} {tail : List Message}
    (h : s.Behind tail) : s = .finished ↔ tail = [.endOfFile] := by
  cases h with
  | between locations =>
    refine iff_of_false nofun fun hlocations => ?_
    obtain ⟨location, -, hlocation⟩ := List.map_eq_singleton_iff.1 hlocations
    cases hlocation
  | inside r =>
    refine iff_of_false nofun fun hopening => ?_
    have hheader : Message.header r.header ∈ r.opening :=
      List.mem_append_right _ List.mem_cons_self
    rw [hopening] at hheader
    cases List.mem_singleton.1 hheader
  | finished => exact iff_of_true rfl rfl

namespace Command.Checking

open SequenceValidator

variable {c : Checking} {protocol : Nat}

/-- Where a check stands behind these messages, which are in order: its report has the records that
are closed among them. -/
def Behind (c : Checking) (protocol : Nat) (ms : List Message) : Prop :=
  ∃ (records : List SentRecord) (tail : List Message),
    ms = records.flatMap SentRecord.messages ++ tail ∧ c.validator.Holds records tail ∧
      c.report = .ofClosed protocol records

theorem behind_start (protocol : Nat) : Behind { report := { protocol } } protocol [] :=
  ⟨[], [], rfl, holds_new, rfl⟩

/-- The position is that of the next message. -/
theorem Behind.position_eq (h : c.Behind protocol ms) :
    c.position = toString (ms.length + 1) := by
  obtain ⟨records, tail, rfl, hholds, -⟩ := h
  rw [position, hholds.messages_eq]

/-- The messages so far are in order. -/
theorem Behind.viable (h : c.Behind protocol ms) : Viable (ms.map Message.tag) := by
  obtain ⟨records, tail, rfl, hholds, -⟩ := h
  exact hholds.viable

/-- **All that one message can do**: the check goes on behind it, or it is out of order. -/
theorem Behind.take_cases (h : c.Behind protocol ms) (m : Message) :
    (∃ next events, c.take m = (.ok next, events) ∧ next.Behind protocol (ms ++ [m])) ∨
    ∃ e events, c.take m =
        (.error (.ofSequence ("out of order at message " ++ toString (ms.length + 1)) e), events) ∧
      ¬ Viable ((ms ++ [m]).map Message.tag) := by
  have hposition := h.position_eq
  obtain ⟨records, tail, rfl, hholds, hreport⟩ := h
  rcases hholds.observe_cases m with
    ⟨next, hobserve, hnext, -⟩ | ⟨r, next, hobserve, hlast, hnext, -⟩ | ⟨e, hobserve, hviable⟩
  · refine .inl ⟨{ c with validator := next }, [], by rw [take, hobserve], records, tail ++ [m],
      List.append_assoc .., hnext, hreport⟩
  · refine .inl ⟨{ validator := next, report := c.report.addRecord r.summary }, _,
      by rw [take, hobserve], records ++ [r], [], ?_, hnext, ?_⟩
    · rw [List.append_assoc, hlast, List.flatMap_append, List.flatMap_singleton, List.append_nil]
    · rw [hreport, CheckReport.addRecord_ofClosed]
  · exact .inr ⟨e, [], by rw [take, hobserve, hposition], hviable⟩

/-- The equation of checking. -/
theorem run_eq (c : Checking) (r : MessageReader) :
    (c.run r).1 =
      match r.next with
      | (.ok (some m), next) =>
        match c.take m with
        | (.ok later, _) => (later.run next).1
        | (.error failure, _) => .error failure
      | (.ok none, _) => .ok c
      | (.error e, _) => .error (.ofMessage ("decode failed at message " ++ c.position) e) := by
  rw [run]
  generalize r.next = answer
  obtain ⟨e | found, next⟩ := answer
  · rfl
  · cases found with
    | none => rfl
    | some m =>
      dsimp only
      generalize c.take m = taken
      obtain ⟨failure | later, events⟩ := taken
      · rfl
      · rfl

/-- Why the messages of a reader are refused. -/
inductive Refused (requireEnd : Bool) (ms : List Message) (stop : Option MessageError) :
    Failure → Prop
  /-- The messages are in order up to this one. -/
  | outOfOrder {before after : List Message} {m : Message} {e : SequenceError} :
      ms = before ++ m :: after → Viable (before.map Message.tag) →
      ¬ Viable ((before ++ [m]).map Message.tag) →
      Refused requireEnd ms stop
        (.ofSequence ("out of order at message " ++ toString (before.length + 1)) e)
  /-- The messages are all in order, and what comes behind them is none. -/
  | malformed {e : MessageError} :
      stop = some e → Viable (ms.map Message.tag) →
      Refused requireEnd ms stop
        (.ofMessage ("decode failed at message " ++ toString (ms.length + 1)) e)
  /-- The stream ends inside a record. -/
  | incomplete {e : SequenceError} :
      stop = none → Viable (ms.map Message.tag) → ms.map Message.tag ∉ streamOrder.matches' →
      Refused requireEnd ms stop (.ofSequence "incomplete stream" e)
  /-- The stream is whole, and does not end with the end of the file. -/
  | endMissing :
      stop = none → ms.map Message.tag ∈ streamOrder.matches' → requireEnd = true →
      ms.getLast? ≠ some .endOfFile →
      Refused requireEnd ms stop ⟨dataCode, "incomplete stream: missing EndOfFile"⟩

/-- The messages are those of a whole stream, which ends with the end of the file if that is
required. -/
def Passes (requireEnd : Bool) (ms : List Message) : Prop :=
  ms.map Message.tag ∈ streamOrder.matches' ∧
    (requireEnd = true → ms.getLast? = some .endOfFile)

/-- **All that a check can come to behind the last message.** -/
theorem Behind.finish_cases (h : c.Behind protocol ms) (requireEnd : Bool) :
    (Passes requireEnd ms ∧ c.finish requireEnd = .ok (.ofMessages protocol ms)) ∨
    ∃ failure, c.finish requireEnd = .error failure ∧ Refused requireEnd ms none failure := by
  have hviable := h.viable
  obtain ⟨records, tail, rfl, hholds, hreport⟩ := h
  have hwhole := hholds.finish_eq_ok_iff
  cases hfinish : c.validator.finish with
  | error e =>
    rw [hfinish] at hwhole
    refine .inr ⟨_, by rw [finish, hfinish], .incomplete rfl hviable fun hmem => ?_⟩
    cases hwhole.2 hmem
  | ok _ =>
    have hmem := hwhole.1 hfinish
    have htail := hholds.behind.of_finish hfinish
    have hend : c.validator.isFinished = decide (tail = [.endOfFile]) :=
      decide_eq_decide.2 hholds.behind.eq_finished_iff
    have hlast : (records.flatMap SentRecord.messages ++ tail).getLast? = some .endOfFile ↔
        tail = [.endOfFile] := CheckReport.getLast?_append_iff records htail
    by_cases hmissing : requireEnd = true ∧ tail ≠ [.endOfFile]
    · refine .inr ⟨_, ?_, .endMissing rfl hmem hmissing.1 (mt hlast.1 hmissing.2)⟩
      rw [finish, hfinish]
      simp [hend, hmissing]
    · refine .inl ⟨⟨hmem, fun hrequire => hlast.2 ?_⟩, ?_⟩
      · by_contra hnot
        exact hmissing ⟨hrequire, hnot⟩
      · have hnot : ¬ (requireEnd && !c.validator.isFinished) = true := by
          simpa [hend] using hmissing
        rw [finish, hfinish]
        dsimp only
        rw [if_neg hnot, hreport, hholds.messages_eq, hend,
          CheckReport.ofMessages_records protocol records htail]

/-- **All that a stream can come to**: the messages of its reader are all observed, or one of them
is out of order, or what comes behind them is none. -/
theorem Behind.run_cases {r : MessageReader} (h : c.Behind protocol ms) (requireEnd : Bool)
    (hyields : r.Yields more stop) :
    (∃ last, (c.run r).1 = .ok last ∧ stop = none ∧ last.Behind protocol (ms ++ more)) ∨
    ∃ failure, (c.run r).1 = .error failure ∧ Refused requireEnd (ms ++ more) stop failure := by
  induction more generalizing c r ms with
  | nil =>
    obtain ⟨next, hnext, -⟩ := hyields.next_of_nil
    rw [run_eq, hnext, List.append_nil]
    cases stop with
    | none => exact .inl ⟨c, rfl, rfl, h⟩
    | some e =>
      rw [h.position_eq]
      exact .inr ⟨_, rfl, .malformed rfl h.viable⟩
  | cons m more ih =>
    obtain ⟨next, hnext, hrest⟩ := hyields.next_of_cons
    rw [run_eq, hnext]
    rcases h.take_cases m with ⟨later, events, htake, hlater⟩ | ⟨e, events, htake, hviable⟩
    · dsimp only
      rw [htake, List.append_cons]
      exact ih hlater hrest
    · dsimp only
      rw [htake]
      exact .inr ⟨_, rfl, .outOfOrder rfl h.viable hviable⟩

end Command.Checking

namespace Command

open Checking

variable {requireEnd : Bool} {failure : Failure}

/-- An error of what was sent means that the data is wrong. -/
theorem Failure.code_ofMessage {e : MessageError} (h : e.IsContent) (context : String) :
    (ofMessage context e).code = dataCode := by
  cases h with
  | decode e => rfl
  | tooLarge size limit => rfl

/-- Messages are refused for what they are. -/
theorem Checking.Refused.code_eq (h : Refused requireEnd ms stop failure)
    (hstop : ∀ e, stop = some e → e.IsContent) : failure.code = dataCode := by
  cases h with
  | malformed hsome _ => exact Failure.code_ofMessage (hstop _ hsome) _
  | outOfOrder | incomplete | endMissing => rfl

/-- **All that a check of an input can come to**: a report of its messages, which pass, or the
failure for which they are refused. -/
theorem checkSource_cases {shared : Shared} {s : Source}
    (hyields : (MessageReader.ofConfig shared.config s).Yields ms stop) (requireEnd : Bool) :
    (stop = none ∧ Passes requireEnd ms ∧
      (checkSource shared requireEnd s).output =
        (CheckReport.ofMessages shared.protocol.number ms).print shared.output ∧
      (checkSource shared requireEnd s).failure = none) ∨
    ∃ failure, Refused requireEnd ms stop failure ∧ (checkSource shared requireEnd s).output = [] ∧
      (checkSource shared requireEnd s).failure = some failure := by
  unfold checkSource
  dsimp only
  rcases (behind_start shared.protocol.number).run_cases requireEnd hyields with
    ⟨last, hlast, rfl, hbehind⟩ | ⟨failure, hfailure, hrefused⟩
  · rw [hlast]
    rcases hbehind.finish_cases requireEnd with
      ⟨hpasses, hfinish⟩ | ⟨failure, hfinish, hrefused⟩
    · dsimp only [Except.bind]
      rw [hfinish]
      exact .inl ⟨rfl, hpasses, rfl, rfl⟩
    · dsimp only [Except.bind]
      rw [hfinish]
      exact .inr ⟨failure, hrefused, rfl, rfl⟩
  · rw [hfailure]
    exact .inr ⟨failure, hrefused, rfl, rfl⟩

end Command

end WarcStream
