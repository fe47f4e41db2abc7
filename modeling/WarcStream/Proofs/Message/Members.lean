import WarcStream.Proofs.Cbor.Roundtrip
import WarcStream.Proofs.Cbor.Soundness
import WarcStream.Proofs.Json.Roundtrip
import WarcStream.Proofs.Json.Soundness
import WarcStream.Proofs.Members
import WarcStream.Proofs.Message.Grammar
/-!
# What a decoded message keeps of its text

A text is read into a value before it is looked at as a message, and a value has
one member of a name. So neither the one tag nor the fields of the body are
checked in the text: where a name is repeated, the last of its members is the
message's, and the others are gone before anything could refuse them
(`decoding_keeps_last`).
-/

namespace WarcStream.Message

variable {version : ProtocolVersion} {octets : Bytes} {m : Message} {v w : Value}

/-- The last members of what is written are the message: the tag's, and in its body the fields'. -/
inductive LastWritten : ProtocolVersion → Value → Message → Prop
  | object {version : ProtocolVersion} {members : List (String × Value)} {body : Value}
      {m : Message} :
      lastMembers members = [(m.tag.name, body)] → m.tag ∈ version.tags →
      HasBody version body.lastOnly.sorted m → LastWritten version (.object members) m
  /-- The bare name of the end of the file. -/
  | bare {version : ProtocolVersion} :
      .endOfFile ∈ version.tags → LastWritten version (.string "EndOfFile") .endOfFile

/-- What is written is tagged, once it is in order, just if its last member is the tag's. -/
theorem isTagged_sorted_iff {name : String} {body : Value} :
    w.sorted.IsTagged name body ↔
      (∃ members last, w = .object members ∧ lastMembers members = [(name, last)] ∧
        last.sorted = body) ∨
      w = .string "EndOfFile" ∧ name = "EndOfFile" ∧ body = .object [] := by
  constructor
  · intro h
    generalize hv : w.sorted = v at h
    cases h with
    | object name body =>
      cases w with
      | object members =>
        injection hv with hv
        obtain ⟨last, hlast, hbody⟩ := Value.sortedEntries_eq_singleton_iff.1 hv
        exact .inl ⟨members, last, rfl, hlast, hbody⟩
      | null | bool | number | string | array => cases hv
    | bare =>
      cases w with
      | string s =>
        injection hv with hv
        exact .inr ⟨by rw [hv], rfl, rfl⟩
      | null | bool | number | array | object => cases hv
  · rintro (⟨members, last, rfl, hlast, rfl⟩ | ⟨rfl, rfl, rfl⟩)
    · have hsorted := Value.sortedEntries_eq_singleton_iff.2 ⟨last, hlast, rfl⟩
      rw [Value.sorted, hsorted]
      exact .object _ _
    · exact .bare

/-- **A value in order is a message** just if the last members of what was written are. -/
theorem ofStructured_sorted_eq_ok_iff :
    ofStructured version w.sorted = .ok m ↔ LastWritten version w m := by
  rw [ofStructured_eq_ok_iff]
  constructor
  · rintro ⟨hin, body, htagged, hhas⟩
    rcases isTagged_sorted_iff.1 htagged with ⟨members, last, rfl, hlast, rfl⟩ | ⟨rfl, hname, rfl⟩
    · rw [← Value.sorted_lastOnly] at hhas
      exact .object hlast hin hhas
    · have htag : m.tag = .endOfFile := Tag.name_inj hname
      cases m with
      | endOfFile => exact .bare hin
      | metadata | header | blockChunk | blockEnd => cases htag
  · intro h
    cases h with
    | object hlast hin hhas =>
      rw [Value.sorted_lastOnly] at hhas
      exact ⟨hin, _, isTagged_sorted_iff.2 (.inl ⟨_, _, rfl, hlast, rfl⟩), hhas⟩
    | bare hin => exact ⟨hin, .object [], .bare, .endOfFile (.object (by simp))⟩

/-- **Nothing is left out** of what was written just where it repeats no name: then it has one
member, and its body is kept whole. -/
theorem LastWritten.whole_iff {members : List (String × Value)}
    (h : LastWritten version (.object members) m) :
    (∃ body, members = [(m.tag.name, body)] ∧ body.lastOnly = body) ↔
      (Value.object members).NamesOnce ∧ ∀ member ∈ members, member.2.NamesOnce := by
  constructor
  · rintro ⟨body, rfl, hbody⟩
    exact ⟨List.nodup_singleton _, List.forall_mem_singleton.2 (Value.lastOnly_eq_self_iff.1 hbody)⟩
  · rintro ⟨hmembers, hbodies⟩
    cases h with
    | object hlast _ _ =>
      rw [lastMembers_eq_self_iff.2 hmembers] at hlast
      rw [hlast, List.forall_mem_singleton] at hbodies
      exact ⟨_, hlast, Value.lastOnly_eq_self_iff.2 hbodies⟩

/-- **Of the members with one name, decoding keeps the last**, and does not refuse the others. A
segment is decoded as a message just if it is a JSON text and, whatever value it spells, the last
members of that value are the message: all of its members have the name of the tag, the body of the
last of them counts, and of the fields in that body the last of each name. An item that is read at
all is decoded the same way. Nothing is left out just where no name is repeated. -/
theorem decoding_keeps_last (version : ProtocolVersion) (octets : Bytes) (m : Message) :
    (ofSegment version octets = .ok m ↔
      (∃ w, Json.Spells Json.maxDepth octets (.value w)) ∧
        ∀ w, Json.Spells Json.maxDepth octets (.value w) → LastWritten version w m) ∧
    (ofItem version octets = .ok m ↔
      (∃ v, Cbor.parse octets = .ok v) ∧ (∃ w, Cbor.Spells octets (.value w)) ∧
        ∀ w, Cbor.Spells octets (.value w) → LastWritten version w m) ∧
    ∀ members, LastWritten version (.object members) m →
      ((∃ body, members = [(m.tag.name, body)] ∧ body.lastOnly = body) ↔
        (Value.object members).NamesOnce ∧ ∀ member ∈ members, member.2.NamesOnce) := by
  refine ⟨?_, ?_, fun members => LastWritten.whole_iff⟩
  · rw [ofSegment_eq_ok_iff]
    constructor
    · rintro ⟨v, hparse, hm⟩
      obtain ⟨w, hspells, -⟩ := Json.spells_of_parse hparse
      refine ⟨⟨w, hspells⟩, fun w' hspells' => ?_⟩
      have hread := Json.parse_of_spells hspells' (Nat.le_refl _)
      obtain rfl := Except.ok.inj (hparse.symm.trans hread)
      exact ofStructured_sorted_eq_ok_iff.1 hm
    · rintro ⟨⟨w, hspells⟩, hlast⟩
      exact ⟨w.sorted, Json.parse_of_spells hspells (Nat.le_refl _),
        ofStructured_sorted_eq_ok_iff.2 (hlast w hspells)⟩
  · rw [ofItem_eq_ok_iff]
    constructor
    · rintro ⟨v, hparse, hm⟩
      obtain ⟨w, hspells, -⟩ := Cbor.spells_of_parse hparse
      refine ⟨⟨v, hparse⟩, ⟨w, hspells⟩, fun w' hspells' => ?_⟩
      obtain rfl := Cbor.parse_eq_sorted_of_spells hparse hspells'
      exact ofStructured_sorted_eq_ok_iff.1 hm
    · rintro ⟨⟨v, hparse⟩, ⟨w, hspells⟩, hlast⟩
      obtain rfl := Cbor.parse_eq_sorted_of_spells hparse hspells
      exact ⟨w.sorted, hparse, ofStructured_sorted_eq_ok_iff.2 (hlast w hspells)⟩

/-- The tag of the end of the file twice, the first time with a field that it does not have. -/
def twoEnds : Value :=
  .object [("EndOfFile", .object [("a", .natural 1)]), ("EndOfFile", .object [])]

/-- **A repeated tag is not refused**, and a field that no message has is dropped with it. -/
theorem decoding_keeps_last_twoEnds :
    Json.print twoEnds =
      Text.bytes "\x7b\"EndOfFile\":\x7b\"a\":1\x7d,\"EndOfFile\":\x7b\x7d\x7d" ∧
    Json.Spells Json.maxDepth (Json.print twoEnds) (.value twoEnds) ∧
    ofSegment .v2 (Json.print twoEnds) = .ok .endOfFile ∧
    ofItem .v2 (Cbor.encode twoEnds) = .ok .endOfFile ∧ LastWritten .v2 twoEnds .endOfFile := by
  have hplain : twoEnds.Plain (fun key => (Text.bytes key).length ≤ Cbor.pieceLimit) 127 := by
    refine .object (by decide) (List.forall_mem_cons.2 ⟨?_, List.forall_mem_singleton.2 ?_⟩)
    · exact .object (by decide) (List.forall_mem_singleton.2 (.natural 1))
    · exact .object (by simp) (by simp)
  have hspells := Json.spells_print hplain
  have hsegment : ofSegment .v2 (Json.print twoEnds) = .ok .endOfFile := by decide +kernel
  have hitem : ofItem .v2 (Cbor.encode twoEnds) = .ok .endOfFile := by
    have hreads := Cbor.reads_encode [] hplain (by decide) (by decide)
    exact ofItem_eq_ok_iff.2 ⟨_, Cbor.parse_eq_ok_iff.2 (hreads 0), by decide⟩
  obtain ⟨⟨hread, -⟩, -⟩ := decoding_keeps_last .v2 (Json.print twoEnds) .endOfFile
  exact ⟨by decide +kernel, hspells, hsegment, hitem, (hread hsegment).2 twoEnds hspells⟩

/-- Of two checksums of a kind, the last is the message's. -/
example :
    ofStructured .v2 (Value.object
      [("BlockEnd", .object [("crc32c", .natural 1), ("crc32c", .natural 2)])]).sorted =
      .ok (.blockEnd { crc32c := some 2 }) :=
  rfl

end WarcStream.Message
