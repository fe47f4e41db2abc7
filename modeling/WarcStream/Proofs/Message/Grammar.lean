import WarcStream.Message.Structured
import WarcStream.Proofs.Message.Fields
/-!
# The grammar of messages

`HasBody` says which bodies a message has, kind by kind, and `Value.IsTagged`
which values are a tag with a body. Together they are the grammar of messages:
a value is a message just if it follows it, and if it does not, the error says
where it leaves it (`ofStructured_verdict`).
-/

namespace WarcStream

variable {body v : Value} {name : String} {version : ProtocolVersion} {tag : Tag} {m : Message}

/-! ## Bodies -/

/-- **The bodies of a message**, in a protocol version. -/
inductive Message.HasBody : ProtocolVersion → Value → Message → Prop
  /-- A file and a position in it. -/
  | metadata {version : ProtocolVersion} {body : Value} {entries : List (String × Value)}
      {m : Metadata} :
      EntriesOf ["file", "position"] body entries → Present entries "file" Value.IsText m.file →
      Present entries "position" Value.IsPosition m.position →
      HasBody version body (.metadata m)
  /-- A version line and fields. -/
  | header {version : ProtocolVersion} {body : Value} {entries : List (String × Value)}
      {h : Header} :
      EntriesOf ["version", "fields"] body entries →
      Present entries "version" Value.IsText h.version →
      Present entries "fields" Value.IsPairs h.fields → HasBody version body (.header h)
  /-- Octets. -/
  | blockChunk {version : ProtocolVersion} {body : Value} {entries : List (String × Value)}
      {data : Bytes} :
      EntriesOf ["data"] body entries → Present entries "data" Value.IsData data →
      HasBody version body (.blockChunk data)
  /-- In the first version there is exactly one checksum. -/
  | checksum {body : Value} {entries : List (String × Value)} {n : UInt32} :
      EntriesOf ["crc32c"] body entries → Present entries "crc32c" Value.IsWord32 n →
      HasBody .v1 body (.blockEnd { crc32c := some n })
  /-- In the second version each checksum may be left out or null. -/
  | checksums {body : Value} {entries : List (String × Value)} {c : Checksums} :
      EntriesOf ["crc32", "crc32c", "xxh3"] body entries →
      Allowed entries "crc32" Value.IsWord32 c.crc32 →
      Allowed entries "crc32c" Value.IsWord32 c.crc32c →
      Allowed entries "xxh3" Value.IsWord64 c.xxh3 → HasBody .v2 body (.blockEnd c)
  /-- No fields. -/
  | endOfFile {version : ProtocolVersion} {body : Value} {entries : List (String × Value)} :
      EntriesOf [] body entries → HasBody version body .endOfFile

theorem Metadata.ofBody_eq_ok_iff {m : Metadata} :
    ofBody body = .ok m ↔ ∃ entries, EntriesOf ["file", "position"] body entries ∧
      Present entries "file" Value.IsText m.file ∧
      Present entries "position" Value.IsPosition m.position := by
  have hnames : schema.names.Nodup := by decide
  simp only [← present_iff Value.reads_text,
    ← present_iff Value.reads_position, ofBody, bind_eq_ok_iff, pure_eq_ok_iff,
    Schema.entries_eq_ok_iff hnames]
  simp only [schema, Schema.names, List.map_cons, List.map_nil, List.forall_mem_cons,
    List.not_mem_nil, false_imp_iff, implies_true, and_true]
  constructor
  · rintro ⟨entries, ⟨hform, hfile, hposition⟩, file, hf, position, hp, rfl⟩
    exact ⟨entries, hform, ⟨hfile, hf⟩, hposition, hp⟩
  · rintro ⟨entries, hform, ⟨hfile, hf⟩, hposition, hp⟩
    exact ⟨entries, ⟨hform, hfile, hposition⟩, _, hf, _, hp, rfl⟩

theorem Header.ofBody_eq_ok_iff {h : Header} :
    ofBody body = .ok h ↔ ∃ entries, EntriesOf ["version", "fields"] body entries ∧
      Present entries "version" Value.IsText h.version ∧
      Present entries "fields" Value.IsPairs h.fields := by
  have hnames : schema.names.Nodup := by decide
  simp only [← present_iff Value.reads_text,
    ← present_iff Value.reads_pairs, ofBody, bind_eq_ok_iff, pure_eq_ok_iff,
    Schema.entries_eq_ok_iff hnames]
  simp only [schema, Schema.names, List.map_cons, List.map_nil, List.forall_mem_cons,
    List.not_mem_nil, false_imp_iff, implies_true, and_true]
  constructor
  · rintro ⟨entries, ⟨hform, hversion, hfields⟩, version, hv, fields, hf, rfl⟩
    exact ⟨entries, hform, ⟨hversion, hv⟩, hfields, hf⟩
  · rintro ⟨entries, hform, ⟨hversion, hv⟩, hfields, hf⟩
    exact ⟨entries, ⟨hform, hversion, hfields⟩, _, hv, _, hf, rfl⟩

theorem blockDataOfBody_eq_ok_iff {data : Bytes} :
    blockDataOfBody body = .ok data ↔ ∃ entries, EntriesOf ["data"] body entries ∧
      Present entries "data" Value.IsData data := by
  have hnames : blockChunkSchema.names.Nodup := by decide
  simp only [← present_iff Value.reads_data, blockDataOfBody, bind_eq_ok_iff,
    Schema.entries_eq_ok_iff hnames]
  simp only [blockChunkSchema, Schema.names, List.map_cons, List.map_nil, List.forall_mem_cons,
    List.not_mem_nil, false_imp_iff, implies_true, and_true, and_assoc]
  rfl

theorem Checksums.ofBody_v1_eq_ok_iff {c : Checksums} :
    ofBody .v1 body = .ok c ↔ ∃ entries n, EntriesOf ["crc32c"] body entries ∧
      Present entries "crc32c" Value.IsWord32 n ∧ c = { crc32c := some n } := by
  have hnames : requiredSchema.names.Nodup := by decide
  simp only [← present_iff Value.reads_word32, ofBody, bind_eq_ok_iff,
    pure_eq_ok_iff, Schema.entries_eq_ok_iff hnames]
  simp only [requiredSchema, Schema.names, List.map_cons, List.map_nil, List.forall_mem_cons,
    List.not_mem_nil, false_imp_iff, implies_true, and_true]
  constructor
  · rintro ⟨entries, ⟨hform, hcheck⟩, n, hn, rfl⟩
    exact ⟨entries, n, hform, ⟨hcheck, hn⟩, rfl⟩
  · rintro ⟨entries, n, hform, ⟨hcheck, hn⟩, rfl⟩
    exact ⟨entries, ⟨hform, hcheck⟩, n, hn, rfl⟩

theorem Checksums.ofBody_v2_eq_ok_iff {c : Checksums} :
    ofBody .v2 body = .ok c ↔ ∃ entries, EntriesOf ["crc32", "crc32c", "xxh3"] body entries ∧
      Allowed entries "crc32" Value.IsWord32 c.crc32 ∧
      Allowed entries "crc32c" Value.IsWord32 c.crc32c ∧
      Allowed entries "xxh3" Value.IsWord64 c.xxh3 := by
  have hnames : schema.names.Nodup := by decide
  have hnull32 (n : UInt32) : ¬ Value.null.IsWord32 n := by simp [Value.IsWord32, Value.natural]
  have hnull64 (n : UInt64) : ¬ Value.null.IsWord64 n := by simp [Value.IsWord64, Value.natural]
  simp only [← allowed_iff Value.reads_word32 hnull32,
    ← allowed_iff Value.reads_word64 hnull64, ofBody, bind_eq_ok_iff,
    pure_eq_ok_iff, Schema.entries_eq_ok_iff hnames]
  simp only [schema, Schema.names, List.map_cons, List.map_nil, List.forall_mem_cons,
    List.not_mem_nil, false_imp_iff, implies_true, and_true]
  constructor
  · rintro ⟨entries, ⟨hform, hcheck, hcheck', hcheck''⟩, crc32, h, crc32c, h', xxh3, h'', rfl⟩
    exact ⟨entries, hform, ⟨hcheck, h⟩, ⟨hcheck', h'⟩, hcheck'', h''⟩
  · rintro ⟨entries, hform, ⟨hcheck, h⟩, ⟨hcheck', h'⟩, hcheck'', h''⟩
    exact ⟨entries, ⟨hform, hcheck, hcheck', hcheck''⟩, _, h, _, h', _, h'', rfl⟩

theorem emptySchema_entries_eq_ok_iff {entries : List (String × Value)} :
    emptySchema.entries body = .ok entries ↔ EntriesOf [] body entries := by
  have hnames : emptySchema.names.Nodup := by decide
  rw [Schema.entries_eq_ok_iff hnames]
  simp only [emptySchema, Schema.names, List.map_nil, List.not_mem_nil, false_imp_iff, implies_true,
    and_true]

namespace Message

/-- **A body is read** just if it is one of the message. -/
theorem ofBody_eq_ok_iff :
    ofBody version body tag = .ok m ↔ m.tag = tag ∧ HasBody version body m := by
  cases tag with
  | metadata =>
    simp only [ofBody, map_eq_ok_iff, Metadata.ofBody_eq_ok_iff]
    constructor
    · rintro ⟨m, ⟨entries, hform, hfile, hposition⟩, rfl⟩
      exact ⟨rfl, .metadata hform hfile hposition⟩
    · rintro ⟨htag, hbody⟩
      cases hbody with
      | metadata hform hfile hposition => exact ⟨_, ⟨_, hform, hfile, hposition⟩, rfl⟩
      | _ => cases htag
  | header =>
    simp only [ofBody, map_eq_ok_iff, Header.ofBody_eq_ok_iff]
    constructor
    · rintro ⟨h, ⟨entries, hform, hversion, hfields⟩, rfl⟩
      exact ⟨rfl, .header hform hversion hfields⟩
    · rintro ⟨htag, hbody⟩
      cases hbody with
      | header hform hversion hfields => exact ⟨_, ⟨_, hform, hversion, hfields⟩, rfl⟩
      | _ => cases htag
  | blockChunk =>
    simp only [ofBody, map_eq_ok_iff, blockDataOfBody_eq_ok_iff]
    constructor
    · rintro ⟨data, ⟨entries, hform, hdata⟩, rfl⟩
      exact ⟨rfl, .blockChunk hform hdata⟩
    · rintro ⟨htag, hbody⟩
      cases hbody with
      | blockChunk hform hdata => exact ⟨_, ⟨_, hform, hdata⟩, rfl⟩
      | _ => cases htag
  | blockEnd =>
    simp only [ofBody, map_eq_ok_iff]
    cases version with
    | v1 =>
      simp only [Checksums.ofBody_v1_eq_ok_iff]
      constructor
      · rintro ⟨c, ⟨entries, n, hform, hn, rfl⟩, rfl⟩
        exact ⟨rfl, .checksum hform hn⟩
      · rintro ⟨htag, hbody⟩
        cases hbody with
        | checksum hform hn => exact ⟨_, ⟨_, _, hform, hn, rfl⟩, rfl⟩
        | _ => cases htag
    | v2 =>
      simp only [Checksums.ofBody_v2_eq_ok_iff]
      constructor
      · rintro ⟨c, ⟨entries, hform, hcrc32, hcrc32c, hxxh3⟩, rfl⟩
        exact ⟨rfl, .checksums hform hcrc32 hcrc32c hxxh3⟩
      · rintro ⟨htag, hbody⟩
        cases hbody with
        | checksums hform hcrc32 hcrc32c hxxh3 =>
          exact ⟨_, ⟨_, hform, hcrc32, hcrc32c, hxxh3⟩, rfl⟩
        | _ => cases htag
  | endOfFile =>
    simp only [ofBody, map_eq_ok_iff, emptySchema_entries_eq_ok_iff]
    constructor
    · rintro ⟨entries, hform, rfl⟩
      exact ⟨rfl, .endOfFile hform⟩
    · rintro ⟨htag, hbody⟩
      cases hbody with
      | endOfFile hform => exact ⟨_, hform, rfl⟩
      | _ => cases htag

end Message

/-! ## Tags -/

/-- The value is a name with a body: an object with the name as its one key, or the bare name of the
end of the file, which stands for an empty object under it. -/
inductive Value.IsTagged : Value → String → Value → Prop
  | object (name : String) (body : Value) : IsTagged (.object [(name, body)]) name body
  | bare : IsTagged (.string "EndOfFile") "EndOfFile" (.object [])

/-- Different tags have different names. -/
theorem Tag.name_inj {tag' : Tag} (h : tag.name = tag'.name) : tag = tag' := by
  have hfound := ofName?_name tag
  rw [h, ofName?_name] at hfound
  exact (Option.some.inj hfound).symm

namespace Message

theorem ofStructured_of_isTagged (h : v.IsTagged name body) :
    ofStructured version v = ofTagged version name body := by
  cases h with
  | object => rfl
  | bare => rfl

theorem ofStructured_of_not_isTagged (h : ∀ name body, ¬ v.IsTagged name body) :
    ofStructured version v = .error .notTagged := by
  unfold ofStructured
  split
  · rename_i name body
    exact absurd (.object name body) (h name body)
  · split
    · rename_i hname
      subst hname
      exact absurd .bare (h _ _)
    · rfl
  · rfl

theorem ofTagged_of_unknown (h : ∀ tag : Tag, tag.name ≠ name) :
    ofTagged version name body = .error (.unknownTag name) := by
  unfold ofTagged
  split
  · rfl
  · rename_i tag htag
    exact absurd (Tag.name_of_ofName? htag) (h tag)

theorem ofTagged_of_notMem (h : tag ∉ version.tags) :
    ofTagged version tag.name body = .error (.tagNotInVersion tag version) := by
  simp only [ofTagged, Tag.ofName?_name, ProtocolVersion.supports, List.contains_iff_mem, h,
    if_false]

theorem ofTagged_of_mem (h : tag ∈ version.tags) :
    ofTagged version tag.name body = (ofBody version body tag).mapError (.fields tag) := by
  simp only [ofTagged, Tag.ofName?_name, ProtocolVersion.supports, List.contains_iff_mem, h,
    if_true]

/-- All that can become of a value. -/
inductive Verdict (version : ProtocolVersion) (v : Value) : Except DecodeReason Message → Prop
  /-- It is no name with a body. -/
  | notTagged : (∀ name body, ¬ v.IsTagged name body) → Verdict version v (.error .notTagged)
  /-- The name is no tag. -/
  | unknownTag {name : String} {body : Value} :
      v.IsTagged name body → (∀ tag : Tag, tag.name ≠ name) →
      Verdict version v (.error (.unknownTag name))
  /-- The tag is one of another version. -/
  | tagNotInVersion {tag : Tag} {body : Value} :
      v.IsTagged tag.name body → tag ∉ version.tags →
      Verdict version v (.error (.tagNotInVersion tag version))
  /-- The body is none of the tag. -/
  | fields {tag : Tag} {body : Value} {e : FieldError} :
      v.IsTagged tag.name body → tag ∈ version.tags →
      (∀ m : Message, m.tag = tag → ¬ HasBody version body m) →
      Verdict version v (.error (.fields tag e))
  /-- It is a message. -/
  | message {body : Value} {m : Message} :
      v.IsTagged m.tag.name body → m.tag ∈ version.tags → HasBody version body m →
      Verdict version v (.ok m)

/-- A body is a message's, or there is an error in its fields. -/
theorem ofTagged_cases (body : Value) (htag : tag ∈ version.tags) :
    (∃ m, ofTagged version tag.name body = .ok m ∧ m.tag = tag ∧ HasBody version body m) ∨
      ∃ e, ofTagged version tag.name body = .error (.fields tag e) ∧
        ∀ m : Message, m.tag = tag → ¬ HasBody version body m := by
  rw [ofTagged_of_mem htag]
  cases hbody : ofBody version body tag with
  | ok m => exact .inl ⟨m, rfl, ofBody_eq_ok_iff.1 hbody⟩
  | error e =>
    refine .inr ⟨e, rfl, fun m hm hhas => ?_⟩
    rw [ofBody_eq_ok_iff.2 ⟨hm, hhas⟩] at hbody
    cases hbody

theorem verdict_ofStructured (version : ProtocolVersion) (v : Value) :
    Verdict version v (ofStructured version v) := by
  by_cases htagged : ∃ name body, v.IsTagged name body
  · obtain ⟨name, body, h⟩ := htagged
    rw [ofStructured_of_isTagged h]
    by_cases hknown : ∃ tag : Tag, tag.name = name
    · obtain ⟨tag, rfl⟩ := hknown
      by_cases hin : tag ∈ version.tags
      · obtain ⟨m, hm, rfl, hhas⟩ | ⟨e, he, hnone⟩ := ofTagged_cases body hin
        · rw [hm]
          exact .message h hin hhas
        · rw [he]
          exact .fields h hin hnone
      · rw [ofTagged_of_notMem hin]
        exact .tagNotInVersion h hin
    · rw [not_exists] at hknown
      rw [ofTagged_of_unknown hknown]
      exact .unknownTag h hknown
  · simp only [not_exists] at htagged
    rw [ofStructured_of_not_isTagged htagged]
    exact .notTagged htagged

/-- A value is a message just if it is the tag of one with its body. -/
theorem ofStructured_eq_ok_iff :
    ofStructured version v = .ok m ↔
      m.tag ∈ version.tags ∧ ∃ body, v.IsTagged m.tag.name body ∧ HasBody version body m := by
  constructor
  · intro h
    have hverdict := verdict_ofStructured version v
    rw [h] at hverdict
    cases hverdict with
    | message htagged hin hhas => exact ⟨hin, _, htagged, hhas⟩
  · rintro ⟨hin, body, htagged, hhas⟩
    rw [ofStructured_of_isTagged htagged, ofTagged_of_mem hin, ofBody_eq_ok_iff.2 ⟨rfl, hhas⟩]
    rfl

/-- A segment is decoded just if it is a text of a message. -/
theorem ofSegment_eq_ok_iff {segment : Bytes} :
    ofSegment version segment = .ok m ↔
      ∃ v, Json.parse segment = .ok v ∧ ofStructured version v = .ok m := by
  unfold ofSegment
  cases Json.parse segment with
  | error e => simp
  | ok v => simp [mapError_eq_ok_iff]

/-- An item is decoded just if it is one of a message. -/
theorem ofItem_eq_ok_iff {item : Bytes} :
    ofItem version item = .ok m ↔
      ∃ v, Cbor.parse item = .ok v ∧ ofStructured version v = .ok m := by
  unfold ofItem
  cases Cbor.parse item with
  | error e => simp
  | ok v => simp [mapError_eq_ok_iff]

/-- **The grammar of messages.** What becomes of a value is decided in this order, in either
version. A value that is neither an object with one key nor the bare name of the end of the file is
not tagged. A key that is no tag is unknown. A tag of another version is refused, whatever its body.
And a tag of this version is a message just if its body is one of a message with that tag. -/
theorem ofStructured_verdict (version : ProtocolVersion) (v : Value) :
    (ofStructured version v = .error .notTagged ↔
      (∀ name body, v ≠ .object [(name, body)]) ∧ v ≠ .string "EndOfFile") ∧
    (∀ name, ofStructured version v = .error (.unknownTag name) ↔
      (∃ body, v = .object [(name, body)]) ∧ ∀ tag : Tag, tag.name ≠ name) ∧
    (∀ tag other, ofStructured version v = .error (.tagNotInVersion tag other) ↔
      other = version ∧ tag ∉ version.tags ∧ ∃ body, v.IsTagged tag.name body) ∧
    (∀ m, ofStructured version v = .ok m ↔
      m.tag ∈ version.tags ∧ ∃ body, v.IsTagged m.tag.name body ∧ HasBody version body m) ∧
    (∀ tag, (∃ e, ofStructured version v = .error (.fields tag e)) ↔
      tag ∈ version.tags ∧ ∃ body, v.IsTagged tag.name body ∧
        ∀ m : Message, m.tag = tag → ¬ HasBody version body m) := by
  have hverdict := verdict_ofStructured version v
  refine ⟨?_, fun name => ?_, fun tag other => ?_, fun m => ?_, fun tag => ?_⟩
  · constructor
    · intro h
      rw [h] at hverdict
      cases hverdict with
      | notTagged hnone =>
        refine ⟨?_, ?_⟩
        · rintro name body rfl
          exact hnone name body (.object name body)
        · rintro rfl
          exact hnone _ _ .bare
    · rintro ⟨hobject, hbare⟩
      refine ofStructured_of_not_isTagged fun name body htagged => ?_
      cases htagged with
      | object => exact hobject name body rfl
      | bare => exact hbare rfl
  · constructor
    · intro h
      rw [h] at hverdict
      cases hverdict with
      | unknownTag htagged hunknown =>
        cases htagged with
        | object => exact ⟨⟨_, rfl⟩, hunknown⟩
        | bare => exact absurd rfl (hunknown .endOfFile)
    · rintro ⟨⟨body, rfl⟩, hunknown⟩
      rw [ofStructured_of_isTagged (.object name body), ofTagged_of_unknown hunknown]
  · constructor
    · intro h
      rw [h] at hverdict
      cases hverdict with
      | tagNotInVersion htagged hout => exact ⟨rfl, hout, _, htagged⟩
    · rintro ⟨rfl, hout, body, htagged⟩
      rw [ofStructured_of_isTagged htagged, ofTagged_of_notMem hout]
  · constructor
    · intro h
      rw [h] at hverdict
      cases hverdict with
      | message htagged hin hhas => exact ⟨hin, _, htagged, hhas⟩
    · rintro ⟨hin, body, htagged, hhas⟩
      rw [ofStructured_of_isTagged htagged, ofTagged_of_mem hin, ofBody_eq_ok_iff.2 ⟨rfl, hhas⟩]
      rfl
  · constructor
    · rintro ⟨e, h⟩
      rw [h] at hverdict
      cases hverdict with
      | fields htagged hin hnone => exact ⟨hin, _, htagged, hnone⟩
    · rintro ⟨hin, body, htagged, hnone⟩
      obtain ⟨m, -, hm, hhas⟩ | ⟨e, he, -⟩ := ofTagged_cases body hin
      · exact absurd hhas (hnone m hm)
      · exact ⟨e, by rw [ofStructured_of_isTagged htagged, he]⟩

/-- A list has to hold all the fields of the version, and the second has more of them. -/
example :
    ofStructured .v1 (.object [("BlockEnd", .array [.natural 7])]) =
        .ok (.blockEnd { crc32c := some 7 }) ∧
      ofStructured .v2 (.object [("BlockEnd", .array [.natural 7])]) =
        .error (.fields .blockEnd (.tooShort 1 (.body "BlockEnd") 3)) :=
  ⟨rfl, rfl⟩

end Message

end WarcStream
