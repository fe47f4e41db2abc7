import WarcStream.Proofs.Message.Fusing
import WarcStream.Proofs.Message.Gate
/-!
# Sending on what was decoded

A decoder takes many spellings of a message: the bare name of the end of the
file, bodies that are lists, blanks, escapes, items of any width. Whatever it
has taken, the version it was read in can represent the message
(`canRepresent_of_hasBody_self`), so the message has a text and an item there,
no framing finds the text ambiguous, and each is read back as the same message.
Decoding and encoding again is a normal form, and a relay loses nothing but what
is too large for its writer (`relays`).
-/

namespace WarcStream

open Transport

variable {version : ProtocolVersion} {m : Message} {octets payload item : Bytes}

namespace Message

/-- A body is read only in a version that can represent the message. -/
theorem canRepresent_of_hasBody_self {body : Value} (hin : m.tag ∈ version.tags)
    (h : HasBody version body m) : version.canRepresent m = true := by
  have hsupports : version.supports m.tag = true := by
    simpa [ProtocolVersion.supports] using hin
  cases h with
  | checksum | checksums => exact Bool.and_eq_true_iff.2 ⟨hsupports, rfl⟩
  | metadata | header | blockChunk | endOfFile => exact Bool.and_eq_true_iff.2 ⟨hsupports, rfl⟩

/-- **What is read from a value can be represented**, whatever the value looks like. -/
theorem canRepresent_of_ofStructured {v : Value} (h : ofStructured version v = .ok m) :
    version.canRepresent m = true := by
  obtain ⟨hin, body, -, hbody⟩ := ofStructured_eq_ok_iff.1 h
  exact canRepresent_of_hasBody_self hin hbody

/-- The octets are a segment or an item of the message. -/
def Decodes (version : ProtocolVersion) (octets : Bytes) (m : Message) : Prop :=
  ofSegment version octets = .ok m ∨ ofItem version octets = .ok m

theorem canRepresent_of_ofSegment (h : ofSegment version octets = .ok m) :
    version.canRepresent m = true := by
  obtain ⟨v, -, hm⟩ := ofSegment_eq_ok_iff.1 h
  exact canRepresent_of_ofStructured hm

theorem canRepresent_of_ofItem (h : ofItem version octets = .ok m) :
    version.canRepresent m = true := by
  obtain ⟨v, -, hm⟩ := ofItem_eq_ok_iff.1 h
  exact canRepresent_of_ofStructured hm

/-- An item is read back, if its length is a word of sixty-four bits. -/
theorem ofItem_encode (h : version.canRepresent m = true)
    (hlen : (Cbor.encode m.document).length < 2 ^ 64) :
    ofItem version (Cbor.encode m.document) = .ok m := by
  have hparse := Cbor.parse_eq_ok_iff.2 (m.reads_encode hlen)
  exact ofItem_eq_ok_iff.2 ⟨m.toStructured, hparse, ofStructured_toStructured h⟩

theorem canRepresent_of_decodes (h : Decodes version octets m) :
    version.canRepresent m = true := by
  rcases h with h | h
  · exact canRepresent_of_ofSegment h
  · exact canRepresent_of_ofItem h

/-- The text of a message is read back from its segment in either framing, and on its own. -/
theorem ofSegment_print (h : version.canRepresent m = true) (framing : Framing) :
    framing.checkPayload (Json.print m.document) = .ok () ∧
      ofSegment version (Json.print m.document) = .ok m ∧
      ofSegment version (framing.segment (Json.print m.document)) = .ok m := by
  have hclean := framing.checkPayload_of_le fun _ => Json.le_of_mem_print m.plain_document
  refine ⟨hclean, ?_⟩
  cases framing with
  | recordSeparated =>
    exact MessageConfig.ofSegment_text (c := { format := .jsonSequence, version }) rfl h
  | lineDelimited =>
    exact MessageConfig.ofSegment_text (c := { format := .jsonLines, version }) rfl h

/-- The JSON text that a segment is rewritten to. -/
def normalText (version : ProtocolVersion) (segment : Bytes) : Option Bytes :=
  (ofSegment version segment).toOption.bind fun m => (m.toPayload version).toOption

/-- The item that an item is rewritten to. -/
def normalItem (version : ProtocolVersion) (item : Bytes) : Option Bytes :=
  (ofItem version item).toOption.bind fun m => (m.toItem version).toOption

/-- **A text that was rewritten is a normal form**: it is rewritten to itself. -/
theorem normalText_normalText (h : normalText version octets = some payload) :
    normalText version payload = some payload := by
  obtain ⟨m, hm, hpayload⟩ := Option.bind_eq_some_iff.1 h
  rw [toOption_eq_some_iff] at hm hpayload
  have hrepresent := canRepresent_of_ofSegment hm
  obtain ⟨-, rfl⟩ := toPayload_eq_ok_iff.1 hpayload
  have hback := (ofSegment_print hrepresent .lineDelimited).2.1
  refine Option.bind_eq_some_iff.2 ⟨m, ?_, ?_⟩
  · exact toOption_eq_some_iff.2 hback
  · exact toOption_eq_some_iff.2 hpayload

/-- An item that was rewritten is a normal form. -/
theorem normalItem_normalItem (h : normalItem version octets = some item)
    (hlen : item.length < 2 ^ 64) : normalItem version item = some item := by
  obtain ⟨m, hm, hitem⟩ := Option.bind_eq_some_iff.1 h
  rw [toOption_eq_some_iff] at hm hitem
  have hrepresent := canRepresent_of_ofItem hm
  obtain ⟨-, rfl⟩ := toItem_eq_ok_iff.1 hitem
  refine Option.bind_eq_some_iff.2 ⟨m, ?_, ?_⟩
  · exact toOption_eq_some_iff.2 (ofItem_encode hrepresent hlen)
  · exact toOption_eq_some_iff.2 hitem

end Message

/-- What a source hands out was read from a value. -/
theorem MessageSource.exists_ofStructured {source later : MessageSource} {limit : Nat}
    (h : source.next version limit = (.ok (some m), later)) :
    ∃ v, Message.ofStructured version v = .ok m := by
  cases source with
  | frames reader =>
    simp only [MessageSource.next, nextFrame_eq, Prod.mk.injEq] at h
    obtain ⟨hframe, -⟩ := h
    rcases hnext : reader.next.1 with e | _ | segment
    · simp [hnext, ofFrame] at hframe
    · simp [hnext, ofFrame] at hframe
    · simp only [hnext, ofFrame, map_eq_ok_iff, mapError_eq_ok_iff, Option.some.injEq,
        exists_eq_right] at hframe
      obtain ⟨v, -, hv⟩ := Message.ofSegment_eq_ok_iff.1 hframe
      exact ⟨v, hv⟩
  | items octets =>
    simp only [MessageSource.next, nextItem] at h
    rcases hawait : octets.awaitOctets with ⟨f | _ | _, ready⟩
    · simp [hawait] at h
    · simp [hawait] at h
    · simp only [hawait, Prod.mk.injEq, map_eq_ok_iff, Option.some.injEq, exists_eq_right] at h
      obtain ⟨harrival, -⟩ := h
      cases hpull : (Cbor.pull limit ready).1 with
      | done v =>
        simp only [hpull, ofArrival, mapError_eq_ok_iff] at harrival
        exact ⟨v, harrival⟩
      | failed e => simp [hpull, ofArrival] at harrival
      | fault f => simp [hpull, ofArrival] at harrival
      | excess size => simp [hpull, ofArrival] at harrival

namespace MessageReader

variable {r next : MessageReader} {ms : List Message} {stop : Option MessageError}

/-- What a reader hands out, its version can represent. -/
theorem canRepresent_of_next (h : r.next = (.ok (some m), next)) :
    r.config.version.canRepresent m = true := by
  unfold MessageReader.next at h
  split at h
  · cases h
  · split at h
    · rename_i source hsource
      cases h
      obtain ⟨v, hv⟩ := MessageSource.exists_ofStructured hsource
      exact Message.canRepresent_of_ofStructured hv
    · rename_i hother _
      cases h
      exact absurd rfl (hother m)

theorem canRepresent_of_yields (h : r.Yields ms stop) :
    ∀ m ∈ ms, r.config.version.canRepresent m = true := by
  induction ms generalizing r with
  | nil => simp
  | cons m ms ih =>
    obtain ⟨next, hnext, hrest⟩ := h.next_of_cons
    have hconfig : next.config = r.config := by
      obtain ⟨m', next', hnext', -, hkept⟩ | ⟨next', hnext', -⟩ | ⟨e, next', hnext', -⟩ :=
        r.next_cases
      · rw [hnext] at hnext'
        cases hnext'
        exact hkept
      · simp [hnext] at hnext'
      · simp [hnext] at hnext'
    have hlater := ih hrest
    rw [hconfig] at hlater
    exact List.forall_mem_cons.2 ⟨canRepresent_of_next hnext, hlater⟩

end MessageReader

/-- A message that can be represented is encoded, and read back from what it is encoded to, or its
segment or item is too large. -/
theorem MessageConfig.encode_cases {c : MessageConfig} (h : c.version.canRepresent m = true)
    (hsmall : c.limit < 2 ^ 64) :
    let size := c.segmentLength (c.text m).length
    (size ≤ c.limit ∧ c.encode m = .ok (c.wire [m]) ∧
      ∀ s : Source, s.Delivers (c.wire [m]) → (MessageReader.ofConfig c s).Yields [m] none) ∨
    (c.limit < size ∧ c.encode m = .error (.frame (.tooLarge size c.limit))) := by
  intro size
  rw [encode_eq, if_pos h]
  by_cases hlarge : c.limit < size
  · exact .inr ⟨hlarge, if_pos hlarge⟩
  · have hwithin : size ≤ c.limit := Nat.le_of_not_lt hlarge
    have hwire : c.wire [m] = c.frame (c.text m) := List.flatMap_singleton ..
    refine .inl ⟨hwithin, (if_neg hlarge).trans (by rw [hwire]), fun s hs => ?_⟩
    exact MessageReader.yields_wire hsmall
      (List.forall_mem_singleton.2 (accepts_iff.2 ⟨h, hwithin⟩)) hs

/-- **Whatever is decoded can be sent on.** A message that was read from a segment or from an item
can be represented in the version it was read in. It has a text there that is not ambiguous in
either framing, and an item; each is read back as the message, and so are the octets that a
configuration of that version makes of it, unless its segment or item is over the limit, which is
then the one reason to refuse it. A text or an item that was rewritten is its own normal form. And a
relay, which offers to a writer what a reader of the same version has handed out, loses nothing but
what is too large for the writer. Lengths and limits are words of sixty-four bits. -/
theorem Message.relays :
    (∀ (version : ProtocolVersion) (octets : Bytes) (m : Message), Decodes version octets m →
      version.canRepresent m = true ∧
      (∃ payload, m.toPayload version = .ok payload ∧ ofSegment version payload = .ok m ∧
        ∀ framing : Framing, framing.encode payload = .ok (framing.frame payload) ∧
          ofSegment version (framing.segment payload) = .ok m) ∧
      (∃ item, m.toItem version = .ok item ∧
        (item.length < 2 ^ 64 → ofItem version item = .ok m)) ∧
      ∀ c : MessageConfig, c.version = version → c.limit < 2 ^ 64 →
        let size := c.segmentLength (c.text m).length
        (size ≤ c.limit ∧ c.encode m = .ok (c.wire [m]) ∧
          ∀ s : Source, s.Delivers (c.wire [m]) → (MessageReader.ofConfig c s).Yields [m] none) ∨
        (c.limit < size ∧ c.encode m = .error (.frame (.tooLarge size c.limit)))) ∧
    (∀ (version : ProtocolVersion) (octets rewritten : Bytes),
      (normalText version octets = some rewritten → normalText version rewritten = some rewritten) ∧
      (normalItem version octets = some rewritten → rewritten.length < 2 ^ 64 →
        normalItem version rewritten = some rewritten)) ∧
    ∀ (r : MessageReader) (w : MessageWriter) (ms : List Message) (stop : Option MessageError),
      r.Yields ms stop → w.config.version = r.config.version → w.config.limit < 2 ^ 64 →
      w.sink.Reliable →
      (w.offer ms).1.map Prod.fst = ms ∧
      (∀ m answer, (m, answer) ∈ (w.offer ms).1 →
        let size := w.config.segmentLength (w.config.text m).length
        (answer = .ok () ∧ size ≤ w.config.limit) ∨
        (answer = .error (.frame (.tooLarge size w.config.limit)) ∧ w.config.limit < size)) ∧
      MessageWriter.accepted (w.offer ms).1 =
        ms.filter (fun m => w.config.segmentLength (w.config.text m).length ≤ w.config.limit) ∧
      ∀ s : Source, s.Delivers (w.config.wire (MessageWriter.accepted (w.offer ms).1)) →
        (MessageReader.ofConfig w.config s).Yields (MessageWriter.accepted (w.offer ms).1)
          none := by
  refine ⟨fun version octets m h => ?_, fun version octets rewritten => ?_, ?_⟩
  · have hrepresent := canRepresent_of_decodes h
    refine ⟨hrepresent, ⟨Json.print m.document, ?_, ?_, fun framing => ?_⟩,
      ⟨Cbor.encode m.document, ?_, ofItem_encode hrepresent⟩, fun c hversion hsmall => ?_⟩
    · rw [toPayload_eq, if_pos hrepresent]
    · exact (ofSegment_print hrepresent .lineDelimited).2.1
    · obtain ⟨hclean, -, hback⟩ := ofSegment_print hrepresent framing
      refine ⟨?_, hback⟩
      rw [Framing.encode, hclean]
      rfl
    · rw [toItem_eq, if_pos hrepresent]
    · subst hversion
      exact MessageConfig.encode_cases hrepresent hsmall
  · exact ⟨normalText_normalText, normalItem_normalItem⟩
  · intro r w ms stop hyields hversion hsmall hsink
    have hrepresent := MessageReader.canRepresent_of_yields hyields
    rw [← hversion] at hrepresent
    refine ⟨w.fst_offer ms, fun m answer hanswer => ?_, ?_, fun s hs => ?_⟩
    · obtain ⟨hok, -, hwithin⟩ | ⟨-, hrefused⟩ | ⟨htoo, -, hlarge⟩ :=
        MessageWriter.answer_cases hsink hanswer
      · exact .inl ⟨hok, hwithin⟩
      · have hmem : m ∈ (w.offer ms).1.map Prod.fst := List.mem_map_of_mem hanswer
        rw [w.fst_offer] at hmem
        rw [hrepresent m hmem] at hrefused
        cases hrefused
      · exact .inr ⟨htoo, hlarge⟩
    · rw [(MessageWriter.taken_offer hsink ms).1]
      refine List.filter_congr fun m hm => ?_
      rw [MessageConfig.accepts, hrepresent m hm, Bool.true_and]
    · exact MessageReader.yields_wire hsmall (MessageWriter.accepts_of_mem_accepted hsink) hs

/-- The end of the file as its bare name, with blanks around it, is sent on as an object, which is
its own normal form; and a relay of short lines sends on what it has read. -/
theorem Message.relays_bareName :
    (∃ payload, Message.endOfFile.toPayload .v2 = .ok payload ∧
      ofSegment .v2 payload = .ok .endOfFile) ∧
    normalText .v2 (Text.bytes "\x7b\"EndOfFile\":\x7b\x7d\x7d") =
      some (Text.bytes "\x7b\"EndOfFile\":\x7b\x7d\x7d") ∧
    ∀ s : Source, s.Delivers (MessageWriter.shortLines.config.wire [.endOfFile]) →
      MessageWriter.accepted (MessageWriter.shortLines.offer [.endOfFile]).1 = [.endOfFile] := by
  have hdecodes : Decodes .v2 (Text.bytes " \"EndOfFile\" ") .endOfFile := .inl (by decide +kernel)
  have hnormal : normalText .v2 (Text.bytes " \"EndOfFile\" ") =
      some (Text.bytes "\x7b\"EndOfFile\":\x7b\x7d\x7d") := by
    decide +kernel
  obtain ⟨hread, hrewrite, hrelay⟩ := relays
  refine ⟨?_, (hrewrite _ _ _).1 hnormal, fun s hs => ?_⟩
  · obtain ⟨-, ⟨payload, hpayload, hback, -⟩, -⟩ := hread _ _ _ hdecodes
    exact ⟨payload, hpayload, hback⟩
  · have haccepts : ∀ m ∈ [Message.endOfFile], MessageWriter.shortLines.config.accepts m = true :=
      List.forall_mem_singleton.2 (by decide)
    have hyields := MessageReader.yields_wire MessageWriter.limit_shortLines haccepts hs
    obtain ⟨-, -, haccepted, -⟩ := hrelay _ _ _ _ hyields rfl MessageWriter.limit_shortLines
      MessageWriter.reliable_shortLines
    rw [haccepted]
    decide

end WarcStream
