import WarcStream.Proofs.Message.Relay
/-!
# One value in two encodings

The text and the item of a message are two spellings of one value, the one that
its entries come to in the order of their names. Each parser gives just this
value back, so each decoder gives the message back, and different messages have
different values, texts and items (`Message.encodings_carry_value`).
-/

namespace WarcStream.Message

variable {version version' : ProtocolVersion} {m m' : Message} {payload item : Bytes}

/-- **Different messages have different values.** -/
theorem toStructured_injective : Function.Injective toStructured := by
  intro m m' h
  have hm := ofStructured_toStructured (ProtocolVersion.canRepresent_v2 m)
  have hm' := ofStructured_toStructured (ProtocolVersion.canRepresent_v2 m')
  rw [h, hm'] at hm
  exact (Except.ok.inj hm).symm

/-! ## The text and the item of a value -/

theorem parse_print_eq (m : Message) : Json.parse (Json.print m.document) = .ok m.toStructured := by
  have hparse := m.parse_print Json.blank_nil
  rwa [List.append_nil] at hparse

/-- All of the item of a message is taken. -/
theorem run_encode (h : (Cbor.encode m.document).length < 2 ^ 64) :
    Cbor.State.start.run (Cbor.encode m.document) = (.done m.toStructured, []) := by
  obtain ⟨hrun, -⟩ := (m.reads_encode h).run_eq []
  rwa [List.append_nil] at hrun

theorem print_injective (h : Json.print m.document = Json.print m'.document) : m = m' := by
  have hparse := m.parse_print_eq
  rw [h, m'.parse_print_eq] at hparse
  exact toStructured_injective (Except.ok.inj hparse).symm

theorem encode_injective (hlen : (Cbor.encode m.document).length < 2 ^ 64)
    (h : Cbor.encode m.document = Cbor.encode m'.document) : m = m' := by
  have hrun := run_encode hlen
  rw [h, run_encode (h ▸ hlen)] at hrun
  injection hrun with houtcome
  injection houtcome with hvalue
  exact toStructured_injective hvalue.symm

/-- **JSON and CBOR carry the same value.** Where a version can represent a message, the message has
a text and an item there. The text parsed as JSON and the item parsed as CBOR, of which nothing is
left, are both the value of the message, so both are decoded to the message. Messages with the same
text are the same, and so are messages with the same item, in whatever versions they were encoded.
The length of an item is a word of sixty-four bits. -/
theorem encodings_carry_value :
    (∀ (version : ProtocolVersion) (m : Message), version.canRepresent m = true →
      ∃ payload item, m.toPayload version = .ok payload ∧ m.toItem version = .ok item ∧
        Json.parse payload = .ok m.toStructured ∧ ofSegment version payload = .ok m ∧
        (item.length < 2 ^ 64 →
          Cbor.State.start.run item = (.done m.toStructured, []) ∧
          Cbor.parse item = .ok m.toStructured ∧ ofItem version item = .ok m)) ∧
    (∀ (version version' : ProtocolVersion) (m m' : Message) (payload : Bytes),
      m.toPayload version = .ok payload → m'.toPayload version' = .ok payload → m = m') ∧
    ∀ (version version' : ProtocolVersion) (m m' : Message) (item : Bytes), item.length < 2 ^ 64 →
      m.toItem version = .ok item → m'.toItem version' = .ok item → m = m' := by
  refine ⟨fun version m h => ⟨Json.print m.document, Cbor.encode m.document, ?_, ?_, ?_, ?_, ?_⟩,
    ?_, ?_⟩
  · exact toPayload_eq_ok_iff.2 ⟨h, rfl⟩
  · exact toItem_eq_ok_iff.2 ⟨h, rfl⟩
  · exact m.parse_print_eq
  · exact ofSegment_eq_ok_iff.2 ⟨m.toStructured, m.parse_print_eq, ofStructured_toStructured h⟩
  · intro hlen
    exact ⟨run_encode hlen, Cbor.parse_eq_ok_iff.2 (m.reads_encode hlen), ofItem_encode h hlen⟩
  · intro version version' m m' payload h h'
    obtain ⟨-, rfl⟩ := toPayload_eq_ok_iff.1 h
    obtain ⟨-, hsame⟩ := toPayload_eq_ok_iff.1 h'
    exact print_injective hsame.symm
  · intro version version' m m' item hlen h h'
    obtain ⟨-, rfl⟩ := toItem_eq_ok_iff.1 h
    obtain ⟨-, hsame⟩ := toItem_eq_ok_iff.1 h'
    exact encode_injective hlen hsame.symm

/-- A header that holds the same name twice, with a value that JSON must escape and of letters that
take two octets. -/
def repeatedHeader : Message :=
  .header { version := "WARC/1.1", fields := [("a", "\"\n"), ("a", "é")] }

/-- Both fields are in its text and in its item, and no other message has either. -/
theorem encodings_carry_value_repeatedHeader :
    (ProtocolVersion.v1.canRepresent repeatedHeader = true ∧
      (Cbor.encode repeatedHeader.document).length < 2 ^ 64) ∧
    (∃ payload, repeatedHeader.toPayload .v1 = .ok payload ∧
      Json.parse payload = .ok repeatedHeader.toStructured ∧
      ∀ m, m.toPayload .v2 = .ok payload → m = repeatedHeader) ∧
    ∃ item, repeatedHeader.toItem .v1 = .ok item ∧
      Cbor.parse item = .ok repeatedHeader.toStructured ∧
      ∀ m, m.toItem .v2 = .ok item → m = repeatedHeader := by
  have hrepresent : ProtocolVersion.v1.canRepresent repeatedHeader = true := by decide
  have hlen : (Cbor.encode repeatedHeader.document).length < 2 ^ 64 := by decide +kernel
  obtain ⟨hcarry, htexts, hitems⟩ := encodings_carry_value
  obtain ⟨payload, item, hpayload, hitem, hparse, -, hread⟩ := hcarry .v1 _ hrepresent
  obtain ⟨-, hencode⟩ := toItem_eq_ok_iff.1 hitem
  have hsize := hlen
  rw [hencode] at hsize
  refine ⟨⟨hrepresent, hlen⟩, ⟨payload, hpayload, hparse, fun m hm => ?_⟩,
    item, hitem, (hread hsize).2.1, fun m hm => ?_⟩
  · exact htexts _ _ _ _ _ hm hpayload
  · exact hitems _ _ _ _ _ hsize hm hitem

end WarcStream.Message
