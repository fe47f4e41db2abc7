import WarcStream.Proofs.Message.Cut
/-!
# Messages read back

What a writer accepts, a reader of the same configuration yields, in its
order and to the end (`yields_offer`): the writer's limit is the reader's to
the octet, whatever a message holds and however the octets come and go.
-/

namespace WarcStream

open Transport

namespace MessageWriter

variable {w : MessageWriter} {ms : List Message} {m : Message}

/-- What is accepted is within the limit, and its version can represent it. -/
theorem accepts_of_mem_accepted (hsink : w.sink.Reliable) :
    ∀ m ∈ accepted (w.offer ms).1, w.config.accepts m = true := by
  intro m hm
  rw [(taken_offer hsink ms).1] at hm
  exact (List.mem_filter.1 hm).2

/-- The octets on the wire are those of the messages that were accepted. -/
theorem taken_eq_wire (hsink : w.sink.Reliable) :
    (w.offer ms).2.sink.taken = w.sink.taken ++ w.config.wire (accepted (w.offer ms).1) := by
  obtain ⟨haccepted, htaken⟩ := taken_offer hsink ms
  rw [haccepted, htaken]

/-- A message is accepted, or refused for its version, or for its size, which is that of its segment
or item. -/
theorem answer_cases {answer : Except MessageError Unit} (hsink : w.sink.Reliable)
    (h : (m, answer) ∈ (w.offer ms).1) :
    let size := w.config.segmentLength (w.config.text m).length
    (answer = .ok () ∧ w.config.version.canRepresent m = true ∧ size ≤ w.config.limit) ∨
    (answer = .error (.unrepresentable m.tag w.config.version) ∧
      w.config.version.canRepresent m = false) ∨
    (answer = .error (.frame (.tooLarge size w.config.limit)) ∧
      w.config.version.canRepresent m = true ∧ w.config.limit < size) := by
  intro size
  rw [offer_eq hsink, List.mem_map] at h
  obtain ⟨m', -, heq⟩ := h
  obtain ⟨rfl, rfl⟩ := Prod.mk.inj heq
  rw [MessageConfig.encode_eq]
  cases hrepresent : w.config.version.canRepresent m' with
  | true =>
    by_cases hlen : w.config.limit < size
    · rw [if_pos rfl, if_pos hlen]
      exact .inr (.inr ⟨rfl, rfl, hlen⟩)
    · rw [if_pos rfl, if_neg hlen]
      exact .inl ⟨rfl, rfl, Nat.le_of_not_lt hlen⟩
  | false =>
    rw [if_neg Bool.false_ne_true]
    exact .inr (.inl ⟨rfl, rfl⟩)

/-- **Messages are read back as they were written.** Messages are offered to a writer over a sink
that never fails, the next one whatever became of the last. A message that the version can represent
is accepted if its segment or item is within the limit, and else refused for this size; a message
that it cannot represent is refused for that. The octets on the wire are the frames of those that
were accepted, and nothing of those that were refused; and a reader of the same configuration yields
the former, in their order and without an error, from any source that delivers these octets,
whatever its cuts and interruptions. The limit is a word of sixty-four bits. -/
theorem yields_offer (w : MessageWriter) (ms : List Message) (hsink : w.sink.Reliable)
    (hlimit : w.config.limit < 2 ^ 64) :
    (w.offer ms).1.map Prod.fst = ms ∧
    (∀ m answer, (m, answer) ∈ (w.offer ms).1 →
      let size := w.config.segmentLength (w.config.text m).length
      (answer = .ok () ∧ w.config.version.canRepresent m = true ∧ size ≤ w.config.limit) ∨
      (answer = .error (.unrepresentable m.tag w.config.version) ∧
        w.config.version.canRepresent m = false) ∨
      (answer = .error (.frame (.tooLarge size w.config.limit)) ∧
        w.config.version.canRepresent m = true ∧ w.config.limit < size)) ∧
    accepted (w.offer ms).1 = ms.filter w.config.accepts ∧
    (w.offer ms).2.sink.taken = w.sink.taken ++ w.config.wire (accepted (w.offer ms).1) ∧
    ∀ s : Source, s.Delivers (w.config.wire (accepted (w.offer ms).1)) →
      (MessageReader.ofConfig w.config s).Yields (accepted (w.offer ms).1) none := by
  refine ⟨w.fst_offer ms, fun m answer h => answer_cases hsink h, (taken_offer hsink ms).1,
    taken_eq_wire hsink, fun s hs => ?_⟩
  exact MessageReader.yields_wire hlimit (accepts_of_mem_accepted hsink) hs

/-- A writer of short lines, whose sink is full at first and then takes two octets at a time. -/
def shortLines : MessageWriter :=
  { config := { format := .jsonLines, limit := 16 }
    sink := { acceptances := [.fault (.plain .wouldBlock), .atMost 2, .atMost 2] } }

theorem reliable_shortLines : shortLines.sink.Reliable := by
  constructor
  · simp [shortLines, Acceptance.IsReliable, Fault.isRetried, Fault.kind]
  · simp [shortLines]

theorem limit_shortLines : shortLines.config.limit < 2 ^ 64 := by decide

/-- The end of the file fits a short line, and a piece of a block does not. -/
theorem yields_offer_shortLines :
    (shortLines.sink.Reliable ∧ shortLines.config.limit < 2 ^ 64) ∧
      ∀ s : Source, s.Delivers (shortLines.config.wire [.endOfFile]) →
        (MessageReader.ofConfig shortLines.config s).Yields [.endOfFile] none := by
  obtain ⟨-, -, haccepted, -, hread⟩ :=
    yields_offer shortLines [.blockChunk [0x61], .endOfFile] reliable_shortLines limit_shortLines
  have hkept : [Message.blockChunk [0x61], .endOfFile].filter shortLines.config.accepts =
      [.endOfFile] := by
    decide
  rw [hkept] at haccepted
  rw [haccepted] at hread
  exact ⟨⟨reliable_shortLines, limit_shortLines⟩, hread⟩

end MessageWriter

end WarcStream
