import WarcStream.Command.Program
import WarcStream.Proofs.Command.Verdict
import WarcStream.Proofs.Command.Lines
import WarcStream.Proofs.Text.Trimming
/-!
# The good prefix of a text

Lines are cut out of octets, and each is trimmed as text of its own. For a text
this comes to its lines as characters, `Text.lines`: the octets of a line are
those of its characters, with white space behind them at most (`spells_lines`),
so that what a line comes to is read off its characters (`Line.of_spells`).
What is written of a text are the messages of its lines up to the first that is
refused (`frame_writes_prefix`).
-/

namespace WarcStream

open Transport Bytes

/-- The lines of a text. A line feed closes a line, and a carriage return in front of it is no part
of the line. Nothing behind the last line feed is no line. -/
def Text.lines : List Char → List (List Char)
  | [] => []
  | c :: rest =>
    let others := lines rest
    if c = '\n' then [] :: others
    else if c = '\r' ∧ rest.head? = some '\n' then others
    else (c :: others.headD []) :: others.tail

/-- Messages that are accepted are encoded, and their encodings make the wire. -/
theorem MessageConfig.exists_encodings {c : MessageConfig} {ms : List Message}
    (hms : ∀ m ∈ ms, c.accepts m = true) :
    ∃ encodings : List Bytes, ms.map c.encode = encodings.map .ok ∧
      c.wire ms = encodings.flatten := by
  refine ⟨ms.map fun m => c.frame (c.text m), ?_, List.flatMap_def⟩
  rw [List.map_map]
  exact List.map_congr_left fun m hm => MessageConfig.encode_of_accepts (hms m hm)

namespace Command

variable {octets part : Bytes} {line : List Char} {c : MessageConfig} {e : MessageError}

/-! ## Lines as characters -/

/-- What stands in front of the first line feed is the start of the first line. -/
theorem linesOf_append (h : lineFeed ∉ part) (hsome : part ≠ []) (rest : Bytes) :
    linesOf (part ++ rest) = (part ++ (linesOf rest).headD []) :: (linesOf rest).tail := by
  induction part with
  | nil => exact absurd rfl hsome
  | cons b more ih =>
    obtain ⟨hb, hmore⟩ := not_or.1 (mt List.mem_cons.2 h)
    rw [List.cons_append, linesOf, if_neg (Ne.symm hb)]
    by_cases hnil : more = []
    · rw [hnil, List.nil_append]
      cases linesOf rest <;> rfl
    · rw [ih hmore hnil]
      rfl

/-- The octets of a line, with white space behind it at most. -/
def Spells (line : List Char) (octets : Bytes) : Prop :=
  ∃ tail, (∀ c ∈ tail, Text.isWhite c = true) ∧
    octets = (line ++ tail).flatMap String.utf8EncodeChar

theorem spells_nil : Spells [] [] := ⟨[], by simp, rfl⟩

/-- A character more in front. -/
theorem Spells.cons (h : Spells line octets) (c : Char) :
    Spells (c :: line) (String.utf8EncodeChar c ++ octets) := by
  obtain ⟨tail, htail, rfl⟩ := h
  exact ⟨tail, htail, List.flatMap_cons.symm⟩

/-- **The lines of a text are spelled by the lines of its octets**, one by one. -/
theorem spells_lines (cs : List Char) :
    List.Forall₂ Spells (Text.lines cs) (linesOf (cs.flatMap String.utf8EncodeChar)) := by
  induction cs with
  | nil => exact .nil
  | cons c rest ih =>
    rw [List.flatMap_cons, Text.lines]
    by_cases hline : c = '\n'
    · have hnone : lineFeed ∉ ([] : Bytes) := List.not_mem_nil
      have hclosed : linesOf (String.utf8EncodeChar c ++ rest.flatMap String.utf8EncodeChar) =
          [] :: linesOf (rest.flatMap String.utf8EncodeChar) := by
        rw [hline]
        exact linesOf_append_cons hnone _
      rw [if_pos hline, hclosed]
      exact .cons spells_nil ih
    have hpart : lineFeed ∉ String.utf8EncodeChar c := mt Text.lineFeed_mem_iff.1 hline
    rw [if_neg hline, linesOf_append hpart String.utf8EncodeChar_ne_nil]
    split
    · -- behind a return, the line feed closes a line that is empty but for the return
      rename_i hreturn
      obtain ⟨rfl, hhead⟩ := hreturn
      obtain ⟨more, rfl⟩ := List.head?_eq_some_iff.1 hhead
      have hothers : Text.lines ('\n' :: more) = [] :: Text.lines more := rfl
      rw [hothers] at ih ⊢
      obtain ⟨first, others, hfirst, hmore, hsplit⟩ := List.forall₂_cons_left_iff.1 ih
      rw [hsplit]
      refine .cons ?_ hmore
      obtain ⟨tail, htail, rfl⟩ := hfirst
      exact ⟨'\r' :: tail, List.forall_mem_cons.2 ⟨by decide, htail⟩, List.flatMap_cons.symm⟩
    · generalize Text.lines rest = others at ih
      generalize linesOf (rest.flatMap String.utf8EncodeChar) = spelled at ih
      cases ih with
      | nil => exact .cons (spells_nil.cons c) .nil
      | cons hfirst hothers => exact .cons (hfirst.cons c) hothers

/-! ## What a line of text comes to -/

namespace Line

/-- What a line of text comes to. It is blank if it is white throughout. What is left of it without
the white space at its ends is a message or none, and the message is refused if it is too large. -/
def ofText (c : MessageConfig) (line : List Char) : Line :=
  let text := Text.trimChars line
  if text.isEmpty then blank
  else
    match Message.ofSegment c.version (text.flatMap String.utf8EncodeChar) with
    | .error e => refused (.decode e)
    | .ok m =>
      let size := c.segmentLength (c.text m).length
      if c.limit < size then refused (.frame (.tooLarge size c.limit)) else message m

/-- **What octets come to** is what the line that they spell comes to. -/
theorem of_spells (h : Spells line octets) : of c octets = ofText c line := by
  obtain ⟨tail, htail, rfl⟩ := h
  have hbytes (cs : List Char) :
      Text.bytes (String.ofList cs) = cs.flatMap String.utf8EncodeChar := by
    rw [Text.bytes_eq, String.toList_ofList]
  have htext : Text.ofBytes? ((line ++ tail).flatMap String.utf8EncodeChar) =
      some (String.ofList (line ++ tail)) := by
    rw [← hbytes, Text.ofBytes?_bytes]
  have htrim : Text.trim (String.ofList (line ++ tail)) = String.ofList (Text.trimChars line) := by
    rw [Text.trim, String.toList_ofList, Text.trimChars_append_white htail]
  rw [of_eq htext, htrim, hbytes, ofText]
  have hblank : ((Text.trimChars line).flatMap String.utf8EncodeChar).isEmpty =
      (Text.trimChars line).isEmpty := by
    cases Text.trimChars line with
    | nil => rfl
    | cons c more => simp [String.utf8EncodeChar_ne_nil]
  rw [hblank]
  split
  · rfl
  cases hm : Message.ofSegment c.version ((Text.trimChars line).flatMap String.utf8EncodeChar) with
  | error e => rfl
  | ok m =>
    -- it was read in the version of the writer, so only its size is left to refuse it
    have hrepresent := Message.canRepresent_of_ofSegment hm
    dsimp only
    rw [MessageConfig.encode_eq, if_pos hrepresent]
    by_cases hlarge : c.limit < c.segmentLength (c.text m).length
    · rw [if_pos hlarge, if_pos hlarge]
    · rw [if_neg hlarge, if_neg hlarge]

/-- **All that a line of text can come to.** Its message is accepted, and what is refused is no
message, or its message is over the limit. -/
theorem ofText_cases (c : MessageConfig) (line : List Char) :
    ofText c line = blank ∨ (∃ m, ofText c line = message m ∧ c.accepts m = true) ∨
      ∃ e, ofText c line = refused e ∧ e.IsContent := by
  rw [ofText]
  dsimp only
  split
  · exact .inl rfl
  cases hm : Message.ofSegment c.version ((Text.trimChars line).flatMap String.utf8EncodeChar) with
  | error e => exact .inr (.inr ⟨_, rfl, .decode e⟩)
  | ok m =>
    dsimp only
    split
    · exact .inr (.inr ⟨_, rfl, .tooLarge _ _⟩)
    · rename_i hwithin
      have hrepresent := Message.canRepresent_of_ofSegment hm
      exact .inr (.inl ⟨m, rfl,
        MessageConfig.accepts_iff.2 ⟨hrepresent, Nat.le_of_not_lt hwithin⟩⟩)

/-- The messages on lines of text. -/
def textMessages (c : MessageConfig) (lines : List (List Char)) : List Message :=
  lines.filterMap fun line => (ofText c line).message?

theorem accepts_of_mem_textMessages {lines : List (List Char)} {m : Message}
    (h : m ∈ textMessages c lines) : c.accepts m = true := by
  obtain ⟨line, -, hline⟩ := List.mem_filterMap.1 h
  rcases ofText_cases c line with hof | ⟨m', hof, haccepts⟩ | ⟨e, hof, -⟩
  · rw [hof] at hline
    cases hline
  · rw [hof] at hline
    cases hline
    exact haccepts
  · rw [hof] at hline
    cases hline

/-- The lines of the octets of a text come to what its lines come to. -/
theorem map_of_linesOf (c : MessageConfig) (text : String) :
    (linesOf (Text.bytes text)).map (of c) = (Text.lines text.toList).map (ofText c) := by
  rw [Text.bytes_eq]
  have hspells := spells_lines text.toList
  generalize Text.lines text.toList = lines at hspells
  generalize linesOf (text.toList.flatMap String.utf8EncodeChar) = spelled at hspells
  induction hspells with
  | nil => rfl
  | cons hfirst _ ih => rw [List.map_cons, List.map_cons, of_spells hfirst, ih]

/-- Lines that come to the same hold the same messages. -/
theorem messages_eq {lines : List Bytes} {texts : List (List Char)}
    (h : lines.map (of c) = texts.map (ofText c)) : messages c lines = textMessages c texts := by
  have hmessages := congrArg (List.filterMap message?) h
  rwa [List.filterMap_map, List.filterMap_map] at hmessages

end Line

/-- An error of what was sent is told with the context in front. -/
theorem Failure.exists_ofMessage_eq (h : e.IsContent) (context : String) :
    ∃ reason, ofMessage context e = ⟨dataCode, context ++ ": " ++ reason⟩ := by
  cases h with
  | decode e => exact ⟨_, rfl⟩
  | tooLarge size limit => exact ⟨_, rfl⟩

/-! ## The command -/

/-- **What is written of a text** are the messages of its lines up to the first that is refused. -/
theorem frameSource_of_text (shared : Shared) (input : Input) {text : String} {s : Source}
    (hs : s.Readable (Text.bytes text)) :
    ∃ before rest, Text.lines text.toList = before ++ rest ∧
      (∀ line ∈ before, (Line.ofText shared.config line).isPassed = true) ∧
      (frameSource shared input s).output =
        shared.config.wire (Line.textMessages shared.config before) ∧
      (rest = [] ∧ (frameSource shared input s).failure = none ∨
        ∃ line after e, rest = line :: after ∧ Line.ofText shared.config line = .refused e ∧
          e.IsContent ∧ (frameSource shared input s).failure =
            some (.ofMessage ("line " ++ toString (before.length + 1)) e)) := by
  obtain ⟨before, rest, hlines, hpassed, houtput, hstop⟩ := frameSource_of_readable shared input hs
  -- the lines of the text are parted where the lines of its octets are
  have hmap := Line.map_of_linesOf shared.config text
  rw [hlines, List.map_append] at hmap
  obtain ⟨front, back, hcut, hfront, hback⟩ := List.map_eq_append_iff.1 hmap.symm
  have hlength : before.length = front.length := by
    rw [← List.length_map (Line.of shared.config), ← hfront, List.length_map]
  have hall : ∀ result ∈ front.map (Line.ofText shared.config), result.isPassed = true := by
    rw [hfront]
    exact List.forall_mem_map.2 hpassed
  rw [Line.messages_eq hfront.symm] at houtput
  refine ⟨front, back, hcut, List.forall_mem_map.1 hall, houtput, ?_⟩
  rcases hstop with ⟨rfl, hclean⟩ | ⟨line, after, failure, rfl, hsome, hfailure⟩
  · exact .inl ⟨List.map_eq_nil_iff.1 hback, hclean⟩
  · obtain ⟨first, others, rfl, hfirst, -⟩ := List.map_eq_cons_iff.1 hback
    rw [← hfirst, hlength] at hfailure
    refine .inr ⟨first, others, ?_⟩
    rcases Line.ofText_cases shared.config first with hof | ⟨m, hof, -⟩ | ⟨e, hof, hcontent⟩
    · rw [hof] at hfailure
      cases hfailure
    · rw [hof] at hfailure
      cases hfailure
    · rw [hof] at hfailure
      cases hfailure
      exact ⟨e, rfl, hof, hcontent, hsome⟩

/-- **Of a text its good prefix is written.** The lines of the text are trimmed, and those that are
blank are passed over. What is written are the encodings of the messages on the lines before the
first that is refused, and nothing else: it is refused where it is no message of the version, or
where its message is over the limit. If there is no such line the command succeeds. Else the data is
wrong, and the failure says which line it was, counted from one with the blank ones among them. -/
theorem frame_writes_prefix (shared : Shared) (input : Input) (text : String) (s : Source)
    (hs : s.Readable (Text.bytes text)) :
    let outcome := Invocation.run ⟨shared, .frame input⟩ (.ok s)
    let lines := Text.lines text.toList
    let good := lines.takeWhile fun line => (Line.ofText shared.config line).isPassed
    (∃ encodings : List Bytes,
      (Line.textMessages shared.config good).map shared.config.encode = encodings.map .ok ∧
        outcome.output = encodings.flatten) ∧
    (good = lines ∧ outcome.code = successCode ∧ outcome.failure = none ∨
      ∃ line after e, lines = good ++ line :: after ∧
        Line.ofText shared.config line = .refused e ∧ outcome.code = dataCode ∧
        let context := "line " ++ toString (good.length + 1)
        outcome.failure = some (.ofMessage context e) ∧
          ∃ reason, outcome.failure = some ⟨dataCode, context ++ ": " ++ reason⟩) := by
  intro outcome lines good
  obtain ⟨before, rest, hlines, hpassed, houtput, hstop⟩ := frameSource_of_text shared input hs
  have haccepted : ∀ m ∈ Line.textMessages shared.config before, shared.config.accepts m = true :=
    fun m hm => Line.accepts_of_mem_textMessages hm
  obtain ⟨encodings, hencodings, hwire⟩ := MessageConfig.exists_encodings haccepted
  have hgood : good = before := by
    have hcut : good = (before ++ rest).takeWhile
        fun line => (Line.ofText shared.config line).isPassed := congrArg _ hlines
    rw [hcut, List.takeWhile_append_of_pos hpassed]
    rcases hstop with ⟨rfl, -⟩ | ⟨line, after, e, rfl, hof, -⟩
    · exact List.append_nil before
    · rw [List.takeWhile_cons_of_neg (by simp [hof, Line.isPassed]), List.append_nil]
  rw [hgood]
  refine ⟨⟨encodings, hencodings, houtput.trans hwire⟩, ?_⟩
  rcases hstop with ⟨rfl, hclean⟩ | ⟨line, after, e, rfl, hof, hcontent, hfailure⟩
  · exact .inl ⟨(hlines.trans (List.append_nil before)).symm, Outcome.code_of_none hclean, hclean⟩
  · obtain ⟨reason, hreason⟩ :=
      Failure.exists_ofMessage_eq hcontent ("line " ++ toString (before.length + 1))
    exact .inr ⟨line, after, e, hlines, hof,
      (Outcome.code_of_some hfailure).trans (Failure.code_ofMessage hcontent _), hfailure, reason,
      hfailure.trans (congrArg some hreason)⟩

/-- Records of at most so many octets, which hold the end of the file and nothing longer. -/
def shortRecords : Shared := { stream := .jsonSequence, limit := some 17 }

/-- An empty line, the end of the file in white space, a line of white space, the place of a file,
and the end of the file again. -/
def mixedText : String :=
  "\r\n\u00a0\"EndOfFile\"\t\r\n\u2028 \n" ++
    "\x7b\"Metadata\": \x7b\"file\": \"a\", \"position\": 7\x7d\x7d\r\n\"EndOfFile\""

/-- The message on the second line is written, and the one on the fourth is too large. -/
theorem frame_writes_prefix_mixedText :
    (Source.ofBytes (Text.bytes mixedText)).Readable (Text.bytes mixedText) ∧
    ∀ s : Source, s.Readable (Text.bytes mixedText) →
      let outcome := Invocation.run ⟨shortRecords, .frame .stdin⟩ (.ok s)
      outcome.output = recordSeparator :: Text.bytes "\x7b\"EndOfFile\":\x7b\x7d\x7d\n" ∧
        outcome.code = dataCode ∧
        ∃ reason, outcome.failure = some ⟨dataCode, "line 4: " ++ reason⟩ := by
  refine ⟨Source.readable_ofBytes _, fun s hs => ?_⟩
  have hgood : (Text.lines mixedText.toList).takeWhile
      (fun line => (Line.ofText shortRecords.config line).isPassed) =
        (Text.lines mixedText.toList).take 3 := by
    decide +kernel
  have hmessages : (Line.textMessages shortRecords.config
      ((Text.lines mixedText.toList).take 3)).map shortRecords.config.encode =
        [.ok (recordSeparator :: Text.bytes "\x7b\"EndOfFile\":\x7b\x7d\x7d\n")] := by
    decide +kernel
  have hmore : (Text.lines mixedText.toList).take 3 ≠ Text.lines mixedText.toList := by
    decide +kernel
  obtain ⟨⟨encodings, hencodings, houtput⟩, hend⟩ :=
    frame_writes_prefix shortRecords .stdin mixedText s hs
  rw [hgood] at hencodings hend
  have hwritten : encodings.map Except.ok =
      [recordSeparator :: Text.bytes "\x7b\"EndOfFile\":\x7b\x7d\x7d\n"].map Except.ok :=
    hencodings.symm.trans hmessages
  have hone := List.map_injective_iff.2 (fun _ _ h => Except.ok.inj h) hwritten
  rcases hend with ⟨hall, -⟩ | ⟨line, after, e, -, -, hcode, -, reason, hfailure⟩
  · exact absurd hall hmore
  · refine ⟨?_, hcode, reason, hfailure⟩
    rw [houtput, hone]
    rfl

end Command

end WarcStream
