import WarcStream.Record.Sequence
/-!
# One message and a validator

`SequenceState.Accepts` has a constructor for each message that can follow, and
`SequenceState.Refuses` one for each way in which a message can be out of order;
every message is one or the other (`accepts_or_refuses`). A validator gives its
state away before it judges a message, so that what it holds afterwards is what
the case of the message puts back: the state that follows, behind a message that
is accepted (`Accepts.observe_eq`), and the very state that was given away,
behind one that is refused (`Refuses.observe_eq`). `observe_cases` is all that
one message can do.
-/

namespace WarcStream

namespace SequenceState

/-- **What can follow**: the state behind a message that is accepted, and the record it closes. -/
inductive Accepts : SequenceState → Message → SequenceState → Option RecordSummary → Prop
  /-- A location, which takes the place of one that was sent before it. -/
  | location (announced : Option Metadata) (location : Metadata) :
      Accepts (.between announced) (.metadata location) (.between (some location)) none
  /-- A header, which opens a record at the location that was sent before it. -/
  | header (announced : Option Metadata) (h : Header) :
      Accepts (.between announced) (.header h)
        (.inside { metadata := announced, version := h.version, fieldCount := h.fields.length })
        none
  /-- The end of the file, where no record was announced. -/
  | endOfFile : Accepts (.between none) .endOfFile .finished none
  /-- A piece of the block that is open. -/
  | chunk (record : RecordSummary) (data : Bytes) :
      Accepts (.inside record) (.blockChunk data)
        (.inside { record with
          chunkCount := record.chunkCount + 1
          blockLength := record.blockLength + data.length }) none
  /-- The end of the block, which closes its record. -/
  | close (record : RecordSummary) (checksums : Checksums) :
      Accepts (.inside record) (.blockEnd checksums) (.between none)
        (some { record with checksums })

/-- **What can be out of order**, and how it is reported. -/
inductive Refuses : SequenceState → Message → SequenceError → Prop
  /-- Nothing comes behind the end of the file. -/
  | afterEnd (m : Message) : Refuses .finished m (.afterEnd m.tag)
  /-- A record that was announced must come before the end of the file. -/
  | announced (location : Metadata) :
      Refuses (.between (some location)) .endOfFile (.unexpected false .endOfFile)
  /-- No block is open that could go on or end. -/
  | outside (announced : Option Metadata) (m : Message)
      (h : m.tag = .blockChunk ∨ m.tag = .blockEnd) :
      Refuses (.between announced) m (.unexpected false m.tag)
  /-- The block that is open must go on or end. -/
  | inside (record : RecordSummary) (m : Message)
      (hchunk : m.tag ≠ .blockChunk) (hend : m.tag ≠ .blockEnd) :
      Refuses (.inside record) m (.unexpected true m.tag)

variable {s next : SequenceState} {m : Message} {closed : Option RecordSummary}
  {e : SequenceError}

/-- **Every message can follow or is out of order.** -/
theorem accepts_or_refuses (s : SequenceState) (m : Message) :
    (∃ next closed, s.Accepts m next closed) ∨ ∃ e, s.Refuses m e := by
  cases s with
  | finished => exact .inr ⟨_, .afterEnd m⟩
  | between announced =>
    cases m with
    | metadata location => exact .inl ⟨_, _, .location announced location⟩
    | header header => exact .inl ⟨_, _, .header announced header⟩
    | blockChunk data => exact .inr ⟨_, .outside announced _ (.inl rfl)⟩
    | blockEnd checksums => exact .inr ⟨_, .outside announced _ (.inr rfl)⟩
    | endOfFile =>
      cases announced with
      | none => exact .inl ⟨_, _, .endOfFile⟩
      | some location => exact .inr ⟨_, .announced location⟩
  | inside record =>
    cases m with
    | blockChunk data => exact .inl ⟨_, _, .chunk record data⟩
    | blockEnd checksums => exact .inl ⟨_, _, .close record checksums⟩
    | metadata | header | endOfFile => exact .inr ⟨_, .inside record _ nofun nofun⟩

/-! ## What is put back -/

/-- A message that is accepted moves the state on, and the end of a block counts its record. -/
theorem Accepts.receive_eq (h : s.Accepts m next closed) (v : SequenceValidator) :
    v.receive s m =
      (next, .ok closed, { v with records := v.records + closed.toList.length }) := by
  cases h with
  | location | header | endOfFile | chunk | close => rfl

/-- **The state of a refused message is put back**, whatever it held, and nothing is counted. -/
theorem Refuses.receive_eq (h : s.Refuses m e) (v : SequenceValidator) :
    v.receive s m = (s, .error e, v) := by
  cases h with
  | afterEnd | announced => rfl
  | outside announced m htag =>
    cases m with
    | blockChunk | blockEnd => rfl
    | metadata | header | endOfFile => rcases htag with htag | htag <;> cases htag
  | inside record m hchunk hend =>
    cases m with
    | blockChunk => exact absurd rfl hchunk
    | blockEnd => exact absurd rfl hend
    | metadata | header | endOfFile => rfl

/-- A message that can follow does so in one way. -/
theorem Accepts.unique {other : SequenceState} {record : Option RecordSummary}
    (h : s.Accepts m next closed) (h' : s.Accepts m other record) :
    next = other ∧ closed = record := by
  have heq := (h.receive_eq {}).symm.trans (h'.receive_eq {})
  cases heq
  exact ⟨rfl, rfl⟩

/-- No message both follows and is out of order. -/
theorem Accepts.not_refuses (h : s.Accepts m next closed) : ¬ s.Refuses m e := by
  intro hrefuses
  have heq := (h.receive_eq {}).symm.trans (hrefuses.receive_eq {})
  cases heq

end SequenceState

open SequenceState

variable {v next : SequenceValidator} {state : SequenceState} {m : Message}
  {closed : Option RecordSummary} {e : SequenceError}

/-- A message that is accepted is counted, and so is the record that it closes. -/
theorem SequenceState.Accepts.observe_eq (h : v.state.Accepts m state closed) :
    v.observe m =
      (.ok closed, { state, messages := v.messages + 1,
                     records := v.records + closed.toList.length }) := by
  simp only [SequenceValidator.observe, h.receive_eq]
  rfl

/-- **A message that is refused leaves the validator as it was**: the state that was given away is
in its place again, and an error counts nothing. -/
theorem SequenceState.Refuses.observe_eq (h : v.state.Refuses m e) :
    v.observe m = (.error e, v) := by
  simp only [SequenceValidator.observe, h.receive_eq]
  rfl

namespace SequenceValidator

/-- **All that one message can do**: it can follow, and the validator goes on behind it, or it is
out of order, and the validator stays where it was. -/
theorem observe_cases (v : SequenceValidator) (m : Message) :
    (∃ state closed, v.state.Accepts m state closed ∧
      v.observe m = (.ok closed, { state, messages := v.messages + 1,
                                   records := v.records + closed.toList.length })) ∨
    ∃ e, v.state.Refuses m e ∧ v.observe m = (.error e, v) := by
  rcases accepts_or_refuses v.state m with ⟨state, closed, haccepts⟩ | ⟨e, hrefuses⟩
  · exact .inl ⟨state, closed, haccepts, haccepts.observe_eq⟩
  · exact .inr ⟨e, hrefuses, hrefuses.observe_eq⟩

/-- What is accepted can follow, and leads to the state that follows. -/
theorem observe_eq_ok_iff :
    v.observe m = (.ok closed, next) ↔
      v.state.Accepts m next.state closed ∧ next.messages = v.messages + 1 ∧
        next.records = v.records + closed.toList.length := by
  constructor
  · intro hobserve
    rcases v.observe_cases m with ⟨state, record, haccepts, heq⟩ | ⟨e, -, heq⟩
    · rw [hobserve] at heq
      cases heq
      exact ⟨haccepts, rfl, rfl⟩
    · rw [hobserve] at heq
      cases heq
  · rintro ⟨haccepts, hmessages, hrecords⟩
    rw [haccepts.observe_eq, ← hmessages, ← hrecords]

/-- What is refused is out of order, and leaves no trace. -/
theorem observe_eq_error_iff :
    v.observe m = (.error e, next) ↔ v.state.Refuses m e ∧ next = v := by
  constructor
  · intro hobserve
    rcases v.observe_cases m with ⟨state, record, -, heq⟩ | ⟨refused, hrefuses, heq⟩
    · rw [hobserve] at heq
      cases heq
    · rw [hobserve] at heq
      cases heq
      exact ⟨hrefuses, rfl⟩
  · rintro ⟨hrefuses, rfl⟩
    exact hrefuses.observe_eq

/-- The end of the file has been observed if it had been before, or if it was accepted just now: the
state that a validator is left in while it judges a message does not stay. -/
theorem isFinished_observe_iff :
    (v.observe m).2.isFinished = true ↔
      v.isFinished = true ∨ (v.state = .between none ∧ m = .endOfFile) := by
  simp only [isFinished, decide_eq_true_iff]
  rcases v.observe_cases m with ⟨state, closed, haccepts, hobserve⟩ | ⟨e, hrefuses, hobserve⟩
  · rw [hobserve]
    generalize v.state = before at haccepts
    cases haccepts with
    | endOfFile => exact iff_of_true rfl (.inr ⟨rfl, rfl⟩)
    | location | header | chunk | close => simp
  · rw [hobserve]
    refine ⟨.inl, fun hfinished => ?_⟩
    rcases hfinished with hfinished | ⟨hstate, rfl⟩
    · exact hfinished
    · rw [hstate] at hrefuses
      exact absurd hrefuses Accepts.endOfFile.not_refuses

end SequenceValidator

end WarcStream
