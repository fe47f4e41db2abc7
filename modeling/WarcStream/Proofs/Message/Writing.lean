import WarcStream.Message.Writer
import WarcStream.Proofs.Cbor.Roundtrip
import WarcStream.Proofs.Frame.Sending
import WarcStream.Proofs.Json.Prefix
import WarcStream.Proofs.Message.Document
/-!
# What a writer accepts

A message is refused if its version cannot represent it or if its segment is
over the limit, and for no other reason (`encode_eq`). What is accepted is on
the wire in its order, each message in its frame, and what is refused leaves
no octet there (`taken_offer`).
-/

namespace WarcStream

open Transport

namespace Message

variable {version : ProtocolVersion} {m : Message} {octets blanks : Bytes}

/-- A message has a JSON text where its version can represent it, and is refused elsewhere. -/
theorem toPayload_eq (version : ProtocolVersion) (m : Message) :
    m.toPayload version =
      if version.canRepresent m then .ok (Json.print m.document)
      else .error (.unrepresentable m.tag version) := by
  unfold toPayload checkRepresentable
  split
  · rfl
  · rfl

/-- A message has a CBOR item where its version can represent it, and is refused elsewhere. -/
theorem toItem_eq (version : ProtocolVersion) (m : Message) :
    m.toItem version =
      if version.canRepresent m then .ok (Cbor.encode m.document)
      else .error (.unrepresentable m.tag version) := by
  unfold toItem checkRepresentable
  split
  · rfl
  · rfl

theorem toPayload_eq_ok_iff :
    m.toPayload version = .ok octets ↔
      version.canRepresent m = true ∧ Json.print m.document = octets := by
  rw [toPayload_eq]
  split
  · simp [*]
  · simp [*]

theorem toItem_eq_ok_iff :
    m.toItem version = .ok octets ↔
      version.canRepresent m = true ∧ Cbor.encode m.document = octets := by
  rw [toItem_eq]
  split
  · simp [*]
  · simp [*]

/-- The text of a message is one of its value, with blanks behind it or without. -/
theorem parse_print (m : Message) (h : Json.Blank blanks) :
    Json.parse (Json.print m.document ++ blanks) = .ok m.toStructured :=
  Json.parse_print m.plain_document (by decide) h

/-- The item of a message is one of its value, if its length is a word of sixty-four bits. -/
theorem reads_encode (m : Message) (h : (Cbor.encode m.document).length < 2 ^ 64) :
    Cbor.Reads (.more .start) (Cbor.encode m.document) (.done m.toStructured) :=
  Cbor.reads_encode [] m.plain_document (by decide) h 0

end Message

namespace MessageConfig

variable {c : MessageConfig} {m : Message} {framing : Framing}

/-- The JSON text or the CBOR item of a message, whatever its version can represent. -/
def text (c : MessageConfig) (m : Message) : Bytes :=
  match c.format with
  | .jsonSequence | .jsonLines => Json.print m.document
  | .cborSequence => Cbor.encode m.document

/-- The octets in front of each payload. -/
def opening (c : MessageConfig) : Bytes :=
  match c.format.framing? with
  | some framing => framing.opening
  | none => []

/-- The octets on the wire around a payload. -/
def frame (c : MessageConfig) (payload : Bytes) : Bytes :=
  match c.format.framing? with
  | some framing => framing.frame payload
  | none => payload

/-- The octets that count towards the limit. -/
def segmentLength (c : MessageConfig) (payloadLength : Nat) : Nat :=
  match c.format.framing? with
  | some framing => framing.segmentLength payloadLength
  | none => payloadLength

/-- The version can represent the message, and its segment is within the limit. -/
def accepts (c : MessageConfig) (m : Message) : Bool :=
  c.version.canRepresent m && decide (c.segmentLength (c.text m).length ≤ c.limit)

/-- The octets of messages, each in its frame. -/
def wire (c : MessageConfig) (ms : List Message) : Bytes := ms.flatMap fun m => c.frame (c.text m)

theorem text_of_framing (h : c.format.framing? = some framing) :
    c.text m = Json.print m.document := by
  rw [text]
  cases hformat : c.format with
  | jsonSequence | jsonLines => rfl
  | cborSequence => simp [hformat, StreamFormat.framing?] at h

theorem text_of_items (h : c.format.framing? = none) : c.text m = Cbor.encode m.document := by
  rw [text]
  cases hformat : c.format with
  | jsonSequence | jsonLines => simp [hformat, StreamFormat.framing?] at h
  | cborSequence => rfl

/-- No text in a frame holds a control character. -/
theorem le_of_mem_text (h : c.format.framing? = some framing) : ∀ b ∈ c.text m, 0x20 ≤ b := by
  rw [text_of_framing h]
  exact fun b hb => Json.le_of_mem_print m.plain_document hb

theorem payload_eq (c : MessageConfig) (m : Message) :
    c.payload m =
      if c.version.canRepresent m then .ok (c.text m)
      else .error (.unrepresentable m.tag c.version) := by
  unfold payload text
  cases c.format with
  | jsonSequence | jsonLines => exact Message.toPayload_eq c.version m
  | cborSequence => exact Message.toItem_eq c.version m

theorem wrap_text (c : MessageConfig) (m : Message) :
    c.wrap (c.text m) =
      if c.limit < c.segmentLength (c.text m).length then
        .error (.tooLarge (c.segmentLength (c.text m).length) c.limit)
      else .ok (c.frame (c.text m)) := by
  cases hframing : c.format.framing? with
  | some framing =>
    have hclean := framing.checkPayload_of_le (le_of_mem_text (m := m) hframing)
    have hencode := FrameConfig.encode_eq (c := c.frames framing) hclean
    simp only [wrap, segmentLength, frame, hframing]
    exact hencode
  | none => simp only [wrap, segmentLength, frame, hframing]

/-- **All that encoding can come to**: a message is refused for its version first, and then for its
size. -/
theorem encode_eq (c : MessageConfig) (m : Message) :
    c.encode m =
      if c.version.canRepresent m then
        if c.limit < c.segmentLength (c.text m).length then
          .error (.frame (.tooLarge (c.segmentLength (c.text m).length) c.limit))
        else .ok (c.frame (c.text m))
      else .error (.unrepresentable m.tag c.version) := by
  rw [encode, payload_eq]
  split
  · have hwrap := wrap_text c m
    simp only [bind, Except.bind, hwrap]
    split <;> rfl
  · rfl

theorem encode_of_accepts (h : c.accepts m = true) : c.encode m = .ok (c.frame (c.text m)) := by
  rw [accepts, Bool.and_eq_true, decide_eq_true_iff] at h
  rw [encode_eq, if_pos h.1, if_neg (Nat.not_lt.2 h.2)]

theorem encode_of_not_accepts (h : c.accepts m = false) : ∃ e, c.encode m = .error e := by
  rw [accepts, Bool.and_eq_false_iff, decide_eq_false_iff_not, Nat.not_le] at h
  rw [encode_eq]
  rcases h with h | h
  · exact ⟨_, if_neg (by simp [h])⟩
  · rw [if_pos h]
    split
    · exact ⟨_, rfl⟩
    · exact ⟨_, rfl⟩

end MessageConfig

namespace MessageWriter

variable {w : MessageWriter} {m : Message}

/-- Offers messages one after the other, going on behind those that are refused. Each comes with its
answer. -/
def offer : MessageWriter → List Message →
    List (Message × Except MessageError Unit) × MessageWriter
  | w, [] => ([], w)
  | w, m :: ms =>
    let (answer, next) := w.write m
    let (answers, last) := next.offer ms
    ((m, answer) :: answers, last)

/-- The messages that were accepted. -/
def accepted (answers : List (Message × Except MessageError Unit)) : List Message :=
  (answers.filter fun answer => answer.2.isOk).map Prod.fst

/-- A message that is accepted is on the wire behind those before it. -/
theorem write_of_accepts (hsink : w.sink.Reliable) (h : w.config.accepts m = true) :
    ∃ next, w.write m = (.ok (), next) ∧ next.config = w.config ∧
      next.sink.taken = w.sink.taken ++ w.config.frame (w.config.text m) ∧
      next.sink.Reliable := by
  obtain ⟨last, hdeliver, htaken, hreliable⟩ := hsink.deliver (w.config.frame (w.config.text m))
  refine ⟨{ w with sink := last, written := w.written + 1 }, ?_, rfl, htaken, hreliable⟩
  simp only [write, MessageConfig.encode_of_accepts h, hdeliver]

/-- A message that is refused changes nothing. -/
theorem write_of_not_accepts (h : w.config.accepts m = false) :
    ∃ e, w.config.encode m = .error e ∧ w.write m = (.error e, w) := by
  obtain ⟨e, he⟩ := MessageConfig.encode_of_not_accepts h
  exact ⟨e, he, by simp only [write, he]⟩

/-- The answers come with the messages in their order. -/
theorem fst_offer (w : MessageWriter) (ms : List Message) : (w.offer ms).1.map Prod.fst = ms := by
  induction ms generalizing w with
  | nil => rfl
  | cons m ms ih => exact congrArg (m :: ·) (ih _)

/-- The answers depend on the configuration alone. -/
theorem offer_eq (hsink : w.sink.Reliable) (ms : List Message) :
    (w.offer ms).1 = ms.map fun m => (m, (w.config.encode m).map fun _ => ()) := by
  induction ms generalizing w with
  | nil => rfl
  | cons m rest ih =>
    cases haccepts : w.config.accepts m with
    | true =>
      obtain ⟨next, hwrite, hconfig, -, hnext⟩ := write_of_accepts hsink haccepts
      simp only [offer, hwrite, List.map_cons, MessageConfig.encode_of_accepts haccepts, ih hnext,
        hconfig]
      rfl
    | false =>
      obtain ⟨e, he, hwrite⟩ := write_of_not_accepts haccepts
      simp only [offer, hwrite, List.map_cons, he, ih hsink]
      rfl

/-- **What is accepted is on the wire**, and nothing else. -/
theorem taken_offer (hsink : w.sink.Reliable) (ms : List Message) :
    accepted (w.offer ms).1 = ms.filter w.config.accepts ∧
      (w.offer ms).2.sink.taken = w.sink.taken ++ w.config.wire (ms.filter w.config.accepts) := by
  induction ms generalizing w with
  | nil => exact ⟨rfl, (List.append_nil _).symm⟩
  | cons m rest ih =>
    cases haccepts : w.config.accepts m with
    | true =>
      obtain ⟨next, hwrite, hconfig, htaken, hnext⟩ := write_of_accepts hsink haccepts
      obtain ⟨haccepted, hrest⟩ := ih hnext
      rw [hconfig] at haccepted hrest
      rw [List.filter_cons_of_pos haccepts]
      constructor
      · simp only [offer, hwrite]
        rw [← haccepted]
        rfl
      · simp only [offer, hwrite]
        rw [hrest, htaken, MessageConfig.wire, MessageConfig.wire, List.flatMap_cons,
          List.append_assoc]
    | false =>
      obtain ⟨e, -, hwrite⟩ := write_of_not_accepts haccepts
      obtain ⟨haccepted, hrest⟩ := ih hsink
      rw [List.filter_cons_of_neg (by simp [haccepts])]
      constructor
      · simp only [offer, hwrite]
        rw [← haccepted]
        rfl
      · simp only [offer, hwrite]
        exact hrest

end MessageWriter

end WarcStream
