import WarcStream.Command.Program
import WarcStream.Proofs.Command.Lines
import WarcStream.Proofs.Command.Printing
import WarcStream.Proofs.Json.Text
/-!
# Printing a stream and writing it again

What is printed of a stream in the JSON format are the lines that a writer of
JSON lines would write, and each of them is the message it was printed from:
white space in a message is inside its strings, where nothing is trimmed, and
its line feeds are escaped (`Line.of_print`). So a stream that is printed and
written again is what a writer of the second format would write (`dump_frame`).
-/

namespace WarcStream

open Transport Bytes

variable {c : MessageConfig} {m : Message} {ms : List Message} {octets : Bytes} {s : Source}

/-! ## What a writer writes -/

/-- The octets that a new writer of this configuration writes for messages. -/
def MessageWriter.octetsOf (c : MessageConfig) (ms : List Message) : Bytes :=
  (offer { config := c } ms).2.sink.taken

/-- For messages that are accepted these are their frames. -/
theorem MessageWriter.octetsOf_eq (h : ∀ m ∈ ms, c.accepts m = true) : octetsOf c ms = c.wire ms := by
  have hsink : Sink.Reliable {} := ⟨by simp, by simp⟩
  have htaken := (taken_offer (w := { config := c }) hsink ms).2
  rwa [List.filter_eq_self.2 h] at htaken

/-- A writer of JSON lines writes what is printed. -/
theorem MessageConfig.wire_jsonLines (h : c.format = .jsonLines) (ms : List Message) :
    c.wire ms = MessagePrinter.jsonLines ms := by
  have hframing : c.format.framing? = some .lineDelimited := by rw [h]; rfl
  refine List.flatMap_congr fun m _ => ?_
  rw [frame_of_framing hframing, text_of_framing hframing]
  rfl

/-- Messages that a version can represent are accepted where the limit is large enough. -/
theorem MessageConfig.exists_accepts (format : StreamFormat) (version : ProtocolVersion)
    (h : ∀ m ∈ ms, version.canRepresent m = true) :
    ∃ limit, ∀ m ∈ ms, accepts { format, version, limit } m = true := by
  let lengthOf (m : Message) : Nat :=
    segmentLength { format, version } (text { format, version } m).length
  refine ⟨(ms.map lengthOf).max?.getD 0, fun m hm => accepts_iff.2 ⟨h m hm, ?_⟩⟩
  exact List.le_max?_getD_of_mem (List.mem_map_of_mem hm)

theorem MessageConfig.wire_eq_nil_iff : c.wire ms = [] ↔ ms = [] := by
  rw [wire, List.flatMap_eq_nil_iff]
  refine ⟨fun h => List.eq_nil_iff_forall_not_mem.2 fun m hm => ?_, by rintro rfl; simp⟩
  have hlength := c.length_frame_ge (c.text m)
  rw [h m hm, List.length_nil] at hlength
  exact c.text_ne_nil m (List.length_eq_zero_iff.1 (by omega))

/-- **A stream that can be read** yields the messages that were written, also where none was. -/
theorem MessageReader.yields_wire_of_readable (hsmall : c.limit < 2 ^ 64)
    (hms : ∀ m ∈ ms, c.accepts m = true) (hs : s.Readable (c.wire ms)) :
    (ofConfig c s).Yields ms none := by
  rcases hs with hs | ⟨hlive, hnone⟩
  · exact yields_wire hsmall hms hs
  · obtain rfl := MessageConfig.wire_eq_nil_iff.1 hnone
    exact yields_of_live_nil c hlive

namespace Command

/-- **A printed message is the message of its line.** -/
theorem Line.of_print (h : c.accepts m = true) : of c (Json.print m.document) = message m := by
  have hdocument : m.document = .object [(m.tag.name, .object m.entries)] := rfl
  obtain ⟨text, htext, htrim, hbytes⟩ := Json.exists_text_print (hdocument ▸ m.plain_document)
  rw [← hdocument] at htext hbytes
  have hsome : ¬ (Json.print m.document).isEmpty = true := by
    obtain ⟨inner, hprint⟩ := Json.print_object_eq [(m.tag.name, .object m.entries)]
    rw [hdocument, hprint]
    exact Bool.false_ne_true
  have hrepresent := (MessageConfig.accepts_iff.1 h).1
  rw [of_eq htext, htrim, hbytes, if_neg hsome,
    (Message.ofSegment_print hrepresent .lineDelimited).2.1]
  simp only [MessageConfig.encode_of_accepts h]

/-- No printed message holds a line feed. -/
theorem lineFeed_notMem_print (m : Message) : lineFeed ∉ Json.print m.document := fun h =>
  absurd (Json.le_of_mem_print m.plain_document h) (by decide)

/-- The lines of printed messages are their texts. -/
theorem linesOf_jsonLines (ms : List Message) :
    linesOf (MessagePrinter.jsonLines ms) = ms.map fun m => Json.print m.document := by
  have hclean : ∀ line ∈ ms.map fun m => Json.print m.document, lineFeed ∉ line := fun line hline => by
    obtain ⟨m, -, rfl⟩ := List.mem_map.1 hline
    exact lineFeed_notMem_print m
  have hlines := linesOf_flatMap hclean
  rwa [List.flatMap_map] at hlines

/-- The messages of printed lines are those that were printed. -/
theorem Line.messages_print (h : ∀ m ∈ ms, c.accepts m = true) :
    messages c (ms.map fun m => Json.print m.document) = ms := by
  induction ms with
  | nil => rfl
  | cons m ms ih =>
    obtain ⟨hm, hms⟩ := List.forall_mem_cons.1 h
    rw [List.map_cons, messages_cons, of_print hm, ih hms]
    rfl

/-- **All of a printed stream is written**, and nothing fails. -/
theorem frameSource_jsonLines {shared : Shared} (input : Input)
    (hms : ∀ m ∈ ms, shared.config.accepts m = true)
    (hs : s.Readable (MessagePrinter.jsonLines ms)) :
    (frameSource shared input s).output = shared.config.wire ms ∧
      (frameSource shared input s).failure = none := by
  obtain ⟨before, rest, hlines, -, houtput, hstop⟩ := frameSource_of_readable shared input hs
  rw [linesOf_jsonLines] at hlines
  rcases hstop with ⟨rfl, hnone⟩ | ⟨line, after, failure, rfl, -, hfailure⟩
  · rw [List.append_nil] at hlines
    rw [← hlines, Line.messages_print hms] at houtput
    exact ⟨houtput, hnone⟩
  · -- every line is that of a message that is accepted
    have hline : line ∈ ms.map fun m => Json.print m.document := by
      rw [hlines]
      exact List.mem_append_right before List.mem_cons_self
    obtain ⟨m, hm, rfl⟩ := List.mem_map.1 hline
    rw [Line.of_print (hms m hm)] at hfailure
    cases hfailure

/-- **All of a written stream is printed**, and nothing fails. -/
theorem dumpSource_wire {shared : Shared} (houtput : shared.output = .json)
    (hsmall : shared.config.limit < 2 ^ 64) (hms : ∀ m ∈ ms, shared.config.accepts m = true)
    (hs : s.Readable (shared.config.wire ms)) :
    (dumpSource shared none s).output = MessagePrinter.jsonLines ms ∧
      (dumpSource shared none s).failure = none := by
  have hyields := MessageReader.yields_wire_of_readable hsmall hms hs
  obtain ⟨events, hdump⟩ := dumpSource_of_yields hyields none
  rw [hdump, Option.getD_none, List.take_length, houtput,
    MessagePrinter.finish_printAll_json rfl rfl]
  exact ⟨rfl, rfl⟩

/-- **Printing and writing are inverse on the wire.** The octets that a writer writes for messages
in the format of one command are printed as JSON: nothing fails, and what is printed are the octets
that a writer of JSON lines writes for them, whichever accepts them, and some do. From these the
other command, in its own format, writes the octets that a writer of that format writes, and nothing
fails either. Each command accepts the messages in its version and within its limit; the limit of
the first is a word of sixty-four bits. -/
theorem dump_frame (dumping framing : Shared) (dumpInput frameInput : Input) (ms : List Message)
    (houtput : dumping.output = .json) (hsmall : dumping.config.limit < 2 ^ 64)
    (hdump : ∀ m ∈ ms, dumping.config.accepts m = true)
    (hframe : ∀ m ∈ ms, framing.config.accepts m = true)
    (s : Source) (hs : s.Readable (MessageWriter.octetsOf dumping.config ms)) :
    let dumped := Invocation.run ⟨dumping, .dump dumpInput none⟩ (.ok s)
    dumped.code = successCode ∧
      (∃ limit, ∀ m ∈ ms,
        MessageConfig.accepts { format := .jsonLines, version := dumping.protocol, limit } m) ∧
      (∀ lines : MessageConfig, lines.format = .jsonLines → (∀ m ∈ ms, lines.accepts m = true) →
        dumped.output = MessageWriter.octetsOf lines ms) ∧
      ∀ s' : Source, s'.Readable dumped.output →
        let framed := Invocation.run ⟨framing, .frame frameInput⟩ (.ok s')
        framed.code = successCode ∧ framed.output = MessageWriter.octetsOf framing.config ms := by
  intro dumped
  rw [MessageWriter.octetsOf_eq hdump] at hs
  obtain ⟨hprinted, hclean⟩ := dumpSource_wire houtput hsmall hdump hs
  have hversion : dumping.config.version = dumping.protocol := by
    unfold Shared.config
    split <;> rfl
  refine ⟨Outcome.code_of_none hclean, ?_, fun lines hlines hjson => ?_, fun s' hs' => ?_⟩
  · refine MessageConfig.exists_accepts _ _ fun m hm => ?_
    rw [← hversion]
    exact (MessageConfig.accepts_iff.1 (hdump m hm)).1
  · rw [MessageWriter.octetsOf_eq hjson, MessageConfig.wire_jsonLines hlines]
    exact hprinted
  · have hlines : s'.Readable (MessagePrinter.jsonLines ms) := hprinted ▸ hs'
    obtain ⟨houtput', hclean'⟩ := frameSource_jsonLines frameInput hframe hlines
    exact ⟨Outcome.code_of_none hclean', houtput'.trans (MessageWriter.octetsOf_eq hframe).symm⟩

/-- A location whose text begins and ends with white space, some of which ends lines, and the end of
the file. -/
def whiteMessages : List Message := [.metadata ⟨" \u2028\n\u0085", 7⟩, .endOfFile]

/-- Items of at most so many octets are printed. -/
def printedItems : Shared := { stream := .cborSequence, limit := some 64 }

/-- They go to records of at most so many octets. -/
def writtenRecords : Shared := { stream := .jsonSequence, limit := some 80 }

/-- The location is printed on a line, and read from it as it was. -/
theorem dump_frame_whiteMessages :
    (printedItems.output = .json ∧ printedItems.config.limit < 2 ^ 64 ∧
      (∀ m ∈ whiteMessages, printedItems.config.accepts m = true) ∧
      (∀ m ∈ whiteMessages, writtenRecords.config.accepts m = true) ∧
      (Source.ofBytes (MessageWriter.octetsOf printedItems.config whiteMessages)).Readable
        (MessageWriter.octetsOf printedItems.config whiteMessages)) ∧
      ∀ s' : Source, s'.Readable (MessageWriter.octetsOf { format := .jsonLines } whiteMessages) →
        (Invocation.run ⟨writtenRecords, .frame .stdin⟩ (.ok s')).output =
          MessageWriter.octetsOf writtenRecords.config whiteMessages := by
  have hsmall : printedItems.config.limit < 2 ^ 64 := by decide
  have hdump : ∀ m ∈ whiteMessages, printedItems.config.accepts m = true := by decide +kernel
  have hjson : ∀ m ∈ whiteMessages, ({ format := .jsonLines } : MessageConfig).accepts m = true := by
    decide +kernel
  have hframe : ∀ m ∈ whiteMessages, writtenRecords.config.accepts m = true := by decide +kernel
  have hs := Source.readable_ofBytes (MessageWriter.octetsOf printedItems.config whiteMessages)
  refine ⟨⟨rfl, hsmall, hdump, hframe, hs⟩, fun s' hs' => ?_⟩
  obtain ⟨-, -, hprinted, hwritten⟩ := dump_frame printedItems writtenRecords .stdin .stdin
    whiteMessages rfl hsmall hdump hframe _ hs
  exact (hwritten s' (hprinted { format := .jsonLines } rfl hjson ▸ hs')).2

end Command

end WarcStream
