import WarcStream.Proofs.Message.Cut
import WarcStream.Proofs.Message.Grammar
import WarcStream.Proofs.Message.Roundtrip
import Mathlib.Data.List.TFAE
import Mathlib.Tactic.TFAE
/-!
# The gate of a version

A writer refuses the messages that its version cannot represent, by a look at
the message. A reader refuses them by the form of their bodies. Both refuse the
same messages (`gates_agree`). What the first version represents, the second
represents as well, in the same octets, and so a reader of the second version
reads what a writer of the first has written.
-/

namespace WarcStream

open Transport

variable {version : ProtocolVersion} {m m' : Message} {ms : List Message} {c : MessageConfig}

/-! ## The reader's gate -/

/-- Checksums that have the form of the first version's body are just the one. -/
theorem Checksums.eq_crc32c_of_entriesOf {c : Checksums} {entries : List (String × Value)}
    {n : UInt32} (hform : EntriesOf ["crc32c"] (.object c.entries) entries)
    (hpresent : Present entries "crc32c" Value.IsWord32 n) :
    ∃ n, c = { crc32c := some n } := by
  cases hform with
  | object hknown =>
    obtain ⟨⟨v, hlookup, -⟩, -⟩ := hpresent
    obtain ⟨crc32, crc32c, xxh3⟩ := c
    match crc32, crc32c, xxh3 with
    | none, some n, none => exact ⟨n, rfl⟩
    | none, none, none => simp [Checksums.entries, optionalEntry] at hlookup
    | some n, _, _ =>
      have hname := hknown ("crc32", .natural n.toUInt64)
        (by simp [Checksums.entries, optionalEntry])
      simp at hname
    | _, _, some n =>
      have hname := hknown ("xxh3", .natural n) (by simp [Checksums.entries, optionalEntry])
      simp at hname

namespace Message

/-- A body that a message was written with is read only where its version can represent it. -/
theorem canRepresent_of_hasBody (htag : m'.tag = m.tag) (hin : m.tag ∈ version.tags)
    (h : HasBody version (Value.object m.entries).sorted m') :
    version.canRepresent m = true := by
  have hsupports : version.supports m.tag = true := by
    simpa [ProtocolVersion.supports] using hin
  cases m with
  | blockEnd c =>
    have hcarries : version.carries c = true := by
      rw [entries, Checksums.sorted_entries] at h
      cases h with
      | checksum hform hpresent =>
        obtain ⟨n, rfl⟩ := Checksums.eq_crc32c_of_entriesOf hform hpresent
        rfl
      | checksums => rfl
      | _ => cases htag
    simp only [ProtocolVersion.canRepresent, hsupports, hcarries, Bool.and_true]
  | _ => simp only [ProtocolVersion.canRepresent, hsupports, Bool.and_true]

/-- **The reader's gate**: a message is read from its value just where its version can represent it,
and then it is the same message. -/
theorem ofStructured_toStructured_eq_ok_iff :
    ofStructured version m.toStructured = .ok m' ↔
      version.canRepresent m = true ∧ m' = m := by
  constructor
  · intro h
    have hrepresent : version.canRepresent m = true := by
      have hverdict := verdict_ofStructured version m.toStructured
      rw [h] at hverdict
      cases hverdict with
      | message htagged hin hhas =>
        rw [toStructured_eq] at htagged
        generalize hname : m'.tag.name = name at htagged
        cases htagged with
        | object =>
          have htag := Tag.name_inj hname
          exact canRepresent_of_hasBody htag (htag ▸ hin) hhas
    rw [ofStructured_toStructured hrepresent] at h
    exact ⟨hrepresent, (Except.ok.inj h).symm⟩
  · rintro ⟨h, rfl⟩
    exact ofStructured_toStructured h

end Message

/-! ## The second version -/

/-- What the first version can represent, the second can. -/
theorem ProtocolVersion.canRepresent_v2 (m : Message) : v2.canRepresent m = true := by
  cases m <;> rfl

/-- A writer of the first version accepts nothing that one of the second refuses. -/
theorem MessageConfig.accepts_v2 {chunk : Nat} (h : c.accepts m = true) :
    accepts { c with version := .v2, chunk } m = true := by
  have hlimit := (Bool.and_eq_true_iff.1 h).2
  exact Bool.and_eq_true_iff.2 ⟨ProtocolVersion.canRepresent_v2 m, hlimit⟩

/-- A reader of the second version reads what a writer has written. -/
theorem MessageReader.yields_v2 {s : Source} {chunk : Nat} (hlimit : c.limit < 2 ^ 64)
    (hms : ∀ m ∈ ms, c.accepts m = true) (hs : s.Delivers (c.wire ms)) :
    (ofConfig { c with version := .v2, chunk } s).Yields ms none := by
  let reading : MessageConfig := { c with version := .v2, chunk }
  have hreading : ∀ m ∈ ms, reading.accepts m = true :=
    fun m hm => MessageConfig.accepts_v2 (hms m hm)
  exact yields_wire (c := reading) hlimit hreading hs

/-- **The gates agree.** A message can be represented in a version, has a JSON text there, has a
CBOR item there, and is what a reader of that version makes of its value: each of these just if the
others. Otherwise both encoders refuse it for its version, and the reader finds an error. What the
first version represents, the second represents in the same octets; so a reader of the second, with
the format and the limit of the writer, reads every stream that a writer of either version has
produced. -/
theorem Message.gates_agree :
    (∀ (version : ProtocolVersion) (m : Message),
      List.TFAE [
        version.canRepresent m = true,
        ∃ payload, m.toPayload version = .ok payload,
        ∃ item, m.toItem version = .ok item,
        ofStructured version m.toStructured = .ok m]) ∧
    (∀ (version : ProtocolVersion) (m : Message), version.canRepresent m = false →
      m.toPayload version = .error (.unrepresentable m.tag version) ∧
      m.toItem version = .error (.unrepresentable m.tag version) ∧
      ∃ reason, ofStructured version m.toStructured = .error reason) ∧
    (∀ m : Message, ProtocolVersion.v1.canRepresent m = true →
      ProtocolVersion.v2.canRepresent m = true ∧
      m.toPayload .v2 = m.toPayload .v1 ∧ m.toItem .v2 = m.toItem .v1) ∧
    ∀ (w : MessageWriter) (ms : List Message) (chunk : Nat) (s : Source),
      w.config.limit < 2 ^ 64 → w.sink.Reliable → w.sink.taken = [] →
      s.Delivers (w.offer ms).2.sink.taken →
      (MessageReader.ofConfig { w.config with version := .v2, chunk } s).Yields
        (MessageWriter.accepted (w.offer ms).1) none := by
  refine ⟨fun version m => ?_, fun version m h => ?_, fun m h => ?_, ?_⟩
  · tfae_have 2 ↔ 1 := by
      rw [toPayload_eq]
      exact exists_ite_eq_ok_iff
    tfae_have 3 ↔ 1 := by
      rw [toItem_eq]
      exact exists_ite_eq_ok_iff
    tfae_have 4 ↔ 1 := by
      rw [ofStructured_toStructured_eq_ok_iff]
      exact and_iff_left rfl
    tfae_finish
  · refine ⟨?_, ?_, ?_⟩
    · rw [toPayload_eq, h, if_neg Bool.false_ne_true]
    · rw [toItem_eq, h, if_neg Bool.false_ne_true]
    · cases hread : ofStructured version m.toStructured with
      | error reason => exact ⟨reason, rfl⟩
      | ok m' =>
        have hrepresent := (ofStructured_toStructured_eq_ok_iff.1 hread).1
        rw [h] at hrepresent
        cases hrepresent
  · have hsecond := ProtocolVersion.canRepresent_v2 m
    refine ⟨hsecond, ?_, ?_⟩
    · rw [toPayload_eq, toPayload_eq, h, hsecond]
      rfl
    · rw [toItem_eq, toItem_eq, h, hsecond]
      rfl
  · intro w ms chunk s hlimit hsink htaken hs
    rw [MessageWriter.taken_eq_wire hsink, htaken, List.nil_append] at hs
    exact MessageReader.yields_v2 hlimit (MessageWriter.accepts_of_mem_accepted hsink) hs

/-- A writer of the first version. -/
def MessageWriter.firstVersion : MessageWriter :=
  { config := { format := .jsonLines, version := .v1, limit := 32 }
    sink := { acceptances := [.fault (.plain .interrupted), .atMost 3] } }

theorem MessageWriter.reliable_firstVersion : firstVersion.sink.Reliable := by
  constructor
  · simp [firstVersion, Acceptance.IsReliable, Fault.isRetried, Fault.kind]
  · simp [firstVersion]

/-- The one checksum that the first version knows is written there and read in the second; another
one is refused. -/
theorem Message.gates_agree_firstVersion :
    (Message.blockEnd { xxh3 := some 7 }).toItem .v1 = .error (.unrepresentable .blockEnd .v1) ∧
    (Message.blockEnd { crc32c := some 7 }).toItem .v2 =
      (Message.blockEnd { crc32c := some 7 }).toItem .v1 ∧
    ∀ s : Source,
      s.Delivers (MessageWriter.firstVersion.offer
        [.blockEnd { crc32c := some 7 }, .blockEnd { xxh3 := some 7 }]).2.sink.taken →
      (MessageReader.ofConfig { MessageWriter.firstVersion.config with version := .v2, chunk := 4 }
        s).Yields [.blockEnd { crc32c := some 7 }] none := by
  obtain ⟨-, hrefused, hsame, hread⟩ := gates_agree
  refine ⟨(hrefused .v1 (.blockEnd { xxh3 := some 7 }) rfl).2.1,
    (hsame (.blockEnd { crc32c := some 7 }) rfl).2.2, fun s hs => ?_⟩
  have hlimit : MessageWriter.firstVersion.config.limit < 2 ^ 64 := by decide
  have haccepted : MessageWriter.accepted (MessageWriter.firstVersion.offer
      [.blockEnd { crc32c := some 7 }, .blockEnd { xxh3 := some 7 }]).1 =
      [.blockEnd { crc32c := some 7 }] := by
    rw [(MessageWriter.taken_offer MessageWriter.reliable_firstVersion _).1]
    decide +kernel
  rw [← haccepted]
  exact hread MessageWriter.firstVersion _ 4 s hlimit MessageWriter.reliable_firstVersion rfl hs

end WarcStream
