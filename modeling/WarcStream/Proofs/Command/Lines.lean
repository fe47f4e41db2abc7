import WarcStream.Command.Frame
import WarcStream.Proofs.Message.Relay
import WarcStream.Proofs.Message.Stopping
import WarcStream.Proofs.Message.Truncation
/-!
# What is written of the lines of an input

A line holds no text, or it is blank, or it is a message that is accepted, or it
is refused: `Line.of`. Lines are written up to the first that is not passed
(`takeLines_cases`), and so is an input (`frameSource_of_readable`).
-/

namespace WarcStream.Command

open Transport Bytes

variable {octets line : Bytes} {lines : List Bytes} {input : Input} {index : Nat}

/-! ## Lines -/

/-- Behind a line and its line feed stand the other lines. -/
theorem linesOf_append_cons (h : lineFeed ∉ line) (rest : Bytes) :
    linesOf (line ++ lineFeed :: rest) = line :: linesOf rest := by
  induction line with
  | nil => exact if_pos rfl
  | cons b line ih =>
    obtain ⟨hb, hline⟩ := not_or.1 (mt List.mem_cons.2 h)
    rw [List.cons_append, linesOf, if_neg (Ne.symm hb), ih hline]

/-- **Lines are read back** where no line feed stands in one. -/
theorem linesOf_flatMap (h : ∀ line ∈ lines, lineFeed ∉ line) :
    linesOf (lines.flatMap fun line => line ++ [lineFeed]) = lines := by
  induction lines with
  | nil => rfl
  | cons line lines ih =>
    obtain ⟨hline, hlines⟩ := List.forall_mem_cons.1 h
    rw [List.flatMap_cons, List.append_assoc, List.singleton_append, linesOf_append_cons hline,
      ih hlines]

/-- What ends with a line feed is lines of its own. -/
theorem linesOf_append_closed (octets rest : Bytes) :
    linesOf (octets ++ lineFeed :: rest) = linesOf (octets ++ [lineFeed]) ++ linesOf rest := by
  by_cases hmem : lineFeed ∈ octets
  · obtain ⟨line, after, rfl, hline⟩ := List.eq_append_cons_of_mem hmem
    have hrest := linesOf_append_closed after rest
    simp only [List.append_assoc, List.cons_append]
    rw [linesOf_append_cons hline, linesOf_append_cons hline, hrest, List.cons_append]
  · rw [linesOf_append_cons hmem, linesOf_append_cons hmem]
    rfl
termination_by octets.length
decreasing_by
  rw [‹octets = _›, List.length_append, List.length_cons]
  omega

/-- There are as many lines as line feeds close. -/
theorem length_linesOf_concat (octets : Bytes) :
    (linesOf (octets ++ [lineFeed])).length = octets.count lineFeed + 1 := by
  by_cases hmem : lineFeed ∈ octets
  · obtain ⟨line, after, rfl, hline⟩ := List.eq_append_cons_of_mem hmem
    have hrest := length_linesOf_concat after
    rw [List.append_assoc, List.cons_append, linesOf_append_cons hline, List.length_cons, hrest,
      List.count_append, List.count_eq_zero.2 hline, List.count_cons_self, Nat.zero_add]
  · rw [linesOf_append_cons hmem, List.count_eq_zero.2 hmem]
    rfl
termination_by octets.length
decreasing_by
  rw [‹octets = _›, List.length_append, List.length_cons]
  omega

/-- An input that can be read is read to its end. -/
theorem drain_of_readable {s : Source} (h : s.Readable octets) : drain s.script = (octets, none) := by
  rcases h with ⟨hquiet, rfl⟩ | ⟨hlive, rfl⟩
  · generalize s.script = script at hquiet
    induction script with
    | nil => rfl
    | cons d rest ih =>
      obtain ⟨hd, hrest⟩ := List.forall_mem_cons.1 hquiet
      match d, hd with
      | .data piece, hd =>
        have hpiece : piece ≠ [] := hd
        have hsome : ¬ piece.isEmpty = true := by simpa using hpiece
        rw [drain, if_neg hsome, ih hrest]
        rfl
      | .fault f, hd => exact (if_pos hd).trans (ih hrest)
  · match hscript : s.script with
    | [] => rfl
    | .data [] :: rest => rfl
    | .data (b :: piece) :: rest => simp [Source.live, hscript] at hlive
    | .fault f :: rest => simp [Source.live, hscript] at hlive

/-- What a line comes to. -/
inductive Line where
  /-- Its octets are no text. -/
  | noText
  /-- There is nothing but white space. -/
  | blank
  /-- A message that is accepted. -/
  | message (m : Message)
  /-- No message, or one that is refused. -/
  | refused (error : MessageError)

namespace Line

/-- What a line comes to for a writer of this configuration. -/
def of (c : MessageConfig) (line : Bytes) : Line :=
  match Text.ofBytes? line with
  | none => noText
  | some text =>
    let segment := Text.bytes (Text.trim text)
    if segment.isEmpty then blank
    else
      match Message.ofSegment c.version segment with
      | .error e => refused (.decode e)
      | .ok m =>
        match c.encode m with
        | .error e => refused e
        | .ok _ => message m

/-- The message on a line. -/
def message? : Line → Option Message
  | message m => some m
  | _ => none

/-- The line does not end the stream. -/
def isPassed : Line → Bool
  | blank | message _ => true
  | noText | refused _ => false

/-- The failure at a line with this number. -/
def failure? (input : Input) (index : Nat) : Line → Option Failure
  | noText => some (.ofFault ("read " ++ input.display ++ " failed") .notText)
  | refused e => some (.ofMessage ("line " ++ toString index) e)
  | blank | message _ => none

variable {c : MessageConfig} {m : Message} {e : MessageError} {text : String}

/-- The messages on lines. -/
def messages (c : MessageConfig) (lines : List Bytes) : List Message :=
  lines.filterMap fun line => (of c line).message?

theorem messages_cons (c : MessageConfig) (line : Bytes) (lines : List Bytes) :
    messages c (line :: lines) = (of c line).message?.toList ++ messages c lines := by
  rw [messages, List.filterMap_cons]
  cases (of c line).message? <;> rfl

theorem of_eq_noText (h : Text.ofBytes? line = none) : of c line = noText := by
  rw [of, h]

/-- What a line of text comes to. -/
theorem of_eq (h : Text.ofBytes? line = some text) :
    of c line =
      if (Text.bytes (Text.trim text)).isEmpty then blank
      else
        match Message.ofSegment c.version (Text.bytes (Text.trim text)) with
        | .error e => refused (.decode e)
        | .ok m =>
          match c.encode m with
          | .error e => refused e
          | .ok _ => message m := by
  rw [of, h]

/-- Only octets that are no text come to none. -/
theorem of_eq_noText_iff : of c line = noText ↔ Text.ofBytes? line = none := by
  refine ⟨fun h => ?_, of_eq_noText⟩
  cases htext : Text.ofBytes? line with
  | none => rfl
  | some text =>
    rw [of_eq htext] at h
    split at h
    · cases h
    · split at h
      · cases h
      · split at h <;> cases h

/-- **What is refused** is no message, or its message is too large: it was read in the version of
the writer. -/
theorem isContent_of_refused (h : of c line = refused e) : e.IsContent := by
  cases htext : Text.ofBytes? line with
  | none =>
    rw [of_eq_noText htext] at h
    cases h
  | some text =>
    rw [of_eq htext] at h
    split at h
    · cases h
    · split at h
      · cases h
        exact .decode _
      · rename_i m hm
        have hrepresent := Message.canRepresent_of_ofSegment hm
        split at h
        · rename_i hencode
          cases h
          rw [MessageConfig.encode_eq, if_pos hrepresent] at hencode
          split at hencode
          · cases hencode
            exact .tooLarge _ _
          · cases hencode
        · cases h

end Line

namespace Writing

variable {w : Writing}

/-- **All that one line can do**: it ends the stream, or it is passed, with its message written. -/
theorem takeLine_cases (hsink : w.writer.sink.Reliable) (input : Input) (index : Nat)
    (line : Bytes) :
    (∃ failure, (Line.of w.writer.config line).failure? input index = some failure ∧
      w.takeLine input index line = .error failure) ∨
    ∃ next, (Line.of w.writer.config line).isPassed = true ∧
      w.takeLine input index line = .ok next ∧ next.writer.config = w.writer.config ∧
      next.writer.sink.Reliable ∧
      next.writer.sink.taken = w.writer.sink.taken ++
        w.writer.config.wire (Line.of w.writer.config line).message?.toList := by
  have hnothing : w.writer.sink.taken = w.writer.sink.taken ++ w.writer.config.wire [] :=
    (List.append_nil _).symm
  cases htext : Text.ofBytes? line with
  | none =>
    rw [Line.of_eq_noText htext, takeLine, htext]
    exact .inl ⟨_, rfl, rfl⟩
  | some text =>
    rw [Line.of_eq htext, takeLine, htext]
    by_cases hblank : (Text.bytes (Text.trim text)).isEmpty = true
    · rw [if_pos hblank]
      exact .inr ⟨w, rfl, if_pos hblank, rfl, hsink, hnothing⟩
    simp only [if_neg hblank]
    cases hsegment : Message.ofSegment w.writer.config.version (Text.bytes (Text.trim text)) with
    | error e => exact .inl ⟨_, rfl, rfl⟩
    | ok m =>
      cases haccepts : w.writer.config.accepts m with
      | true =>
        obtain ⟨next, hwrite, hconfig, htaken, hreliable⟩ :=
          MessageWriter.write_of_accepts hsink haccepts
        simp only [MessageConfig.encode_of_accepts haccepts, hwrite]
        refine .inr ⟨_, rfl, rfl, hconfig, hreliable, htaken.trans ?_⟩
        exact congrArg _ (List.flatMap_singleton ..).symm
      | false =>
        obtain ⟨e, hencode, hwrite⟩ := MessageWriter.write_of_not_accepts haccepts
        simp only [hencode, hwrite]
        exact .inl ⟨_, rfl, rfl⟩

/-- **Lines are written** up to the first that is not passed. -/
theorem takeLines_cases (hsink : w.writer.sink.Reliable) (input : Input) (index : Nat)
    (lines : List Bytes) :
    ∃ before rest last stop, lines = before ++ rest ∧
      (∀ line ∈ before, (Line.of w.writer.config line).isPassed = true) ∧
      w.takeLines input index lines = (last, stop) ∧ last.writer.sink.Reliable ∧
      last.writer.sink.taken = w.writer.sink.taken ++
        w.writer.config.wire (Line.messages w.writer.config before) ∧
      (rest = [] ∧ stop = none ∨ ∃ line after failure, rest = line :: after ∧ stop = some failure ∧
        (Line.of w.writer.config line).failure? input (index + before.length) = some failure) := by
  induction lines generalizing w index with
  | nil =>
    exact ⟨[], [], w, none, rfl, by simp, rfl, hsink, (List.append_nil _).symm, .inl ⟨rfl, rfl⟩⟩
  | cons line lines ih =>
    rcases takeLine_cases hsink input index line with
      ⟨failure, hfailure, htake⟩ | ⟨next, hpassed, htake, hconfig, hnext, htaken⟩
    · refine ⟨[], line :: lines, w, some failure, rfl, by simp, ?_, hsink,
        (List.append_nil _).symm, .inr ⟨line, lines, failure, rfl, rfl, hfailure⟩⟩
      rw [takeLines, htake]
    · obtain ⟨before, rest, last, stop, rfl, hbefore, hlines, hlast, hrest, hstop⟩ :=
        ih hnext (index + 1)
      rw [hconfig] at hbefore hrest hstop
      refine ⟨line :: before, rest, last, stop, rfl, List.forall_mem_cons.2 ⟨hpassed, hbefore⟩, ?_,
        hlast, ?_, ?_⟩
      · rw [takeLines, htake]
        exact hlines
      · rw [hrest, htaken, List.append_assoc, Line.messages_cons, MessageConfig.wire_append]
      · rwa [List.length_cons, ← Nat.add_assoc, Nat.add_right_comm]

end Writing

/-! ## The command -/

/-- **What is written of an input that can be read**: the messages of its lines up to the first
that is not passed, and the failure at that line. -/
theorem frameSource_of_readable (shared : Shared) (input : Input) {s : Source}
    (h : s.Readable octets) :
    ∃ before rest, linesOf octets = before ++ rest ∧
      (∀ line ∈ before, (Line.of shared.config line).isPassed = true) ∧
      (frameSource shared input s).output =
        shared.config.wire (Line.messages shared.config before) ∧
      (rest = [] ∧ (frameSource shared input s).failure = none ∨
        ∃ line after failure, rest = line :: after ∧
          (frameSource shared input s).failure = some failure ∧
          (Line.of shared.config line).failure? input (before.length + 1) = some failure) := by
  have hsink : Sink.Reliable {} := ⟨by simp, by simp⟩
  obtain ⟨before, rest, last, stop, hlines, hbefore, htake, hlast, htaken, hstop⟩ :=
    Writing.takeLines_cases (w := { writer := { config := shared.config } }) hsink input 1
      (linesOf octets)
  obtain ⟨flushed, hflush, hkept, -⟩ := hlast.flush
  have hwriter : last.writer.flush = (.ok (), { last.writer with sink := flushed }) := by
    rw [MessageWriter.flush, flushOctets, hflush]
    rfl
  have houtput : last.writer.sink.taken =
      shared.config.wire (Line.messages shared.config before) := htaken
  refine ⟨before, rest, hlines, hbefore, ?_⟩
  rw [frameSource, drain_of_readable h]
  simp only [Option.isSome_none, Bool.false_eq_true, if_false]
  rw [htake]
  rcases hstop with ⟨hrest, rfl⟩ | ⟨line, after, failure, hrest, rfl, hfailure⟩
  · dsimp only
    rw [hwriter]
    exact ⟨hkept.trans houtput, .inl ⟨hrest, rfl⟩⟩
  · rw [Nat.add_comm] at hfailure
    exact ⟨houtput, .inr ⟨line, after, failure, hrest, rfl, hfailure⟩⟩

end WarcStream.Command
