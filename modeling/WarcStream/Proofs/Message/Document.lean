import WarcStream.Message.Structured
import WarcStream.Proofs.Base64
import WarcStream.Proofs.Success
import WarcStream.Proofs.Text.Characters
import WarcStream.Proofs.Value
/-!
# Messages read back from values

A message that its version can represent is what its value stands for
(`ofStructured_toStructured`): every field passes its check and is read as it
was written. The value is plain and shallow, so that both encodings carry it
(`plain_document`).
-/

namespace WarcStream

open Text

variable {version : ProtocolVersion} {m : Message}

/-! ## Fields -/

theorem bytes_base64Text (data : Bytes) : Text.bytes (base64Text data) = Base64.encode data :=
  bytes_ofList _ fun _ hb => Base64.lt_of_mem_encode hb

theorem Value.readData_base64Text (data : Bytes) :
    (Value.string (base64Text data)).readData = .ok data := by
  simp only [Value.readData, Value.readText, bind, Except.bind, bytes_base64Text,
    Base64.decode_encode]
  rfl

theorem Value.readWord32_natural (n : UInt32) : (Value.natural n.toUInt64).readWord32 = .ok n := by
  have hsmall := n.toNat_lt
  simp only [Value.readWord32, Value.natural, Value.readNatural, UInt32.toNat_toUInt64,
    if_pos hsmall]
  exact congrArg Except.ok UInt32.ofNat_toNat

theorem Value.readWord64_natural (n : UInt64) : (Value.natural n).readWord64 = .ok n := by
  simp only [Value.readWord64, Value.natural, Value.readNatural, if_pos n.toNat_lt]
  exact congrArg Except.ok UInt64.ofNat_toNat

theorem Value.readPairs_headerPair (fields : List (String × String)) :
    (Value.array (fields.map headerPair)).readPairs = .ok fields := by
  rw [Value.readPairs]
  induction fields with
  | nil => rfl
  | cons field rest ih =>
    rw [List.map_cons, List.mapM_cons, ih]
    rfl

theorem Value.sortedItems_headerPair (fields : List (String × String)) :
    Value.sortedItems (fields.map headerPair) = fields.map headerPair := by
  induction fields with
  | nil => rfl
  | cons field rest ih =>
    rw [List.map_cons, Value.sortedItems, ih]
    rfl

/-- A body whose entries all pass comes to its entries. -/
theorem Schema.entries_object {s : Schema} {entries : List (String × Value)}
    (h : ∀ entry ∈ entries, s.checkEntry entry = .ok ()) :
    s.entries (.object entries) = .ok entries := by
  rw [Schema.entries, forM_eq_ok_iff.2 h]
  rfl

/-! ## Bodies -/

/-- An entry passes where its field can read it. -/
theorem Schema.checkEntry_of {α : Type} {s : Schema} {name : String} {v : Value} {x : α}
    {read : Value → Except FieldError α}
    (hfield : (s.fields.find? fun field => field.name = name) = some (.of name read))
    (hread : read v = .ok x) : s.checkEntry (name, v) = .ok () := by
  simp only [Schema.checkEntry, hfield, Field.of, hread]
  rfl

theorem Metadata.ofBody_entries (m : Metadata) :
    ofBody (Value.object (Message.metadata m).entries).sorted = .ok m := by
  let body := [("file", Value.string m.file), ("position", Value.natural m.position)]
  have hpass : schema.entries (.object body) = .ok body := by
    refine Schema.entries_object fun entry hentry => ?_
    simp only [body, List.mem_cons, List.not_mem_nil, or_false] at hentry
    rcases hentry with rfl | rfl
    · exact Schema.checkEntry_of rfl rfl
    · exact Schema.checkEntry_of rfl rfl
  have hbody : (Value.object (Message.metadata m).entries).sorted = .object body := rfl
  rw [hbody, ofBody, hpass]
  rfl

theorem Header.sorted_entries (h : Header) :
    (Value.object (Message.header h).entries).sorted =
      .object [("fields", .array (h.fields.map headerPair)), ("version", .string h.version)] :=
  congrArg (fun items => Value.object [("fields", .array items), ("version", .string h.version)])
    (Value.sortedItems_headerPair h.fields)

theorem Header.ofBody_entries (h : Header) :
    ofBody (Value.object (Message.header h).entries).sorted = .ok h := by
  let body := [("fields", Value.array (h.fields.map headerPair)), ("version", .string h.version)]
  have hpass : schema.entries (.object body) = .ok body := by
    refine Schema.entries_object fun entry hentry => ?_
    simp only [body, List.mem_cons, List.not_mem_nil, or_false] at hentry
    rcases hentry with rfl | rfl
    · exact Schema.checkEntry_of rfl (Value.readPairs_headerPair h.fields)
    · exact Schema.checkEntry_of rfl rfl
  have hbody : (Value.object (Message.header h).entries).sorted = .object body := h.sorted_entries
  have hfields : requiredField "fields" Value.readPairs body = .ok h.fields :=
    Value.readPairs_headerPair h.fields
  have hversion : requiredField "version" Value.readText body = .ok h.version := rfl
  rw [hbody, ofBody, hpass]
  simp only [bind, Except.bind, hversion, hfields]
  rfl

theorem blockDataOfBody_entries (data : Bytes) :
    blockDataOfBody (Value.object (Message.blockChunk data).entries).sorted = .ok data := by
  have hread := Value.readData_base64Text data
  let body := [("data", Value.string (base64Text data))]
  have hpass : blockChunkSchema.entries (.object body) = .ok body := by
    refine Schema.entries_object fun entry hentry => ?_
    obtain rfl := List.mem_singleton.1 hentry
    exact Schema.checkEntry_of rfl hread
  have hbody : (Value.object (Message.blockChunk data).entries).sorted = .object body := rfl
  rw [hbody, blockDataOfBody, hpass]
  exact hread

namespace Checksums

/-- A number is read where a value may be null. -/
theorem readOptional_natural {α : Type} {read : Value → Except FieldError α} {n : UInt64} {x : α}
    (hread : read (.natural n) = .ok x) :
    (Value.natural n).readOptional read = .ok (some x) := by
  rw [Value.natural] at hread ⊢
  rw [Value.readOptional, hread]
  · rfl
  · simp

/-- An entry that is there passes where its number can be read. -/
theorem checkEntry_of_mem {α : Type} {name : String} {n : Option UInt64}
    {entry : String × Value} {read : Value → Except FieldError α}
    (hfield : (schema.fields.find? fun field => field.name = name) =
      some (.of name (Value.readOptional read)))
    (hread : ∀ k, n = some k → ∃ x, read (.natural k) = .ok x)
    (h : entry ∈ optionalEntry name n) : schema.checkEntry entry = .ok () := by
  cases n with
  | none => simp [optionalEntry] at h
  | some k =>
    obtain rfl := List.mem_singleton.1 h
    obtain ⟨x, hx⟩ := hread k rfl
    exact Schema.checkEntry_of hfield (readOptional_natural hx)

/-- The entries stand in the order of their names. -/
theorem sorted_entries (c : Checksums) :
    (Value.object c.entries).sorted = .object c.entries := by
  obtain ⟨crc32, crc32c, xxh3⟩ := c
  cases crc32 <;> cases crc32c <;> cases xxh3 <;> rfl

theorem entries_entries (c : Checksums) :
    schema.entries (.object c.entries) = .ok c.entries := by
  have hword32 (n : Option UInt32) (k : UInt64) (hk : n.map UInt32.toUInt64 = some k) :
      ∃ x, Value.readWord32 (.natural k) = .ok x := by
    obtain ⟨x, -, rfl⟩ := Option.map_eq_some_iff.1 hk
    exact ⟨x, Value.readWord32_natural x⟩
  refine Schema.entries_object fun entry hentry => ?_
  simp only [entries, List.mem_append] at hentry
  rcases hentry with (h | h) | h
  · exact checkEntry_of_mem rfl (hword32 c.crc32) h
  · exact checkEntry_of_mem rfl (hword32 c.crc32c) h
  · exact checkEntry_of_mem rfl (fun k _ => ⟨k, Value.readWord64_natural k⟩) h

/-- An optional entry is read back, whether it is there or not. -/
theorem optionalField_entries (c : Checksums) :
    optionalField "crc32" Value.readWord32 c.entries = .ok c.crc32 ∧
      optionalField "crc32c" Value.readWord32 c.entries = .ok c.crc32c ∧
      optionalField "xxh3" Value.readWord64 c.entries = .ok c.xxh3 := by
  have hcrc32 (n : UInt32) := readOptional_natural (Value.readWord32_natural n)
  have hxxh3 (n : UInt64) := readOptional_natural (Value.readWord64_natural n)
  obtain ⟨crc32, crc32c, xxh3⟩ := c
  refine ⟨?_, ?_, ?_⟩
  · cases crc32 <;> cases crc32c <;> cases xxh3 <;> first | rfl | exact hcrc32 _
  · cases crc32 <;> cases crc32c <;> cases xxh3 <;> first | rfl | exact hcrc32 _
  · cases crc32 <;> cases crc32c <;> cases xxh3 <;> first | rfl | exact hxxh3 _

theorem ofBody_entries (c : Checksums) (h : version.carries c = true) :
    ofBody version (Value.object c.entries).sorted = .ok c := by
  rw [sorted_entries]
  cases version with
  | v1 =>
    obtain ⟨crc32, crc32c, xxh3⟩ := c
    match crc32, crc32c, xxh3, h with
    | none, some n, none, _ =>
      let body := [("crc32c", Value.natural n.toUInt64)]
      have hread := Value.readWord32_natural n
      have hpass : requiredSchema.entries (.object body) = .ok body := by
        refine Schema.entries_object fun entry hentry => ?_
        obtain rfl := List.mem_singleton.1 hentry
        exact Schema.checkEntry_of rfl hread
      have hfield : requiredField "crc32c" Value.readWord32 body = .ok n := hread
      have hbody : Value.object (entries ⟨none, some n, none⟩) = .object body := rfl
      rw [hbody, ofBody, hpass]
      simp only [bind, Except.bind, hfield]
      rfl
  | v2 =>
    obtain ⟨hcrc32, hcrc32c, hxxh3⟩ := optionalField_entries c
    rw [ofBody, entries_entries]
    simp only [bind, Except.bind, hcrc32, hcrc32c, hxxh3]
    rfl

end Checksums

/-! ## Messages -/

namespace Message

/-- The value of a message is an object with its tag as the one key. -/
theorem toStructured_eq (m : Message) :
    m.toStructured = .object [(m.tag.name, (Value.object m.entries).sorted)] := rfl

theorem ofBody_entries (h : version.canRepresent m = true) :
    ofBody version (Value.object m.entries).sorted m.tag = .ok m := by
  cases m with
  | metadata m =>
    rw [tag, ofBody, Metadata.ofBody_entries]
    rfl
  | header header =>
    rw [tag, ofBody, Header.ofBody_entries]
    rfl
  | blockChunk data =>
    rw [tag, ofBody, blockDataOfBody_entries]
    rfl
  | blockEnd c =>
    have hcarries : version.carries c = true := by
      rw [ProtocolVersion.canRepresent, Bool.and_eq_true] at h
      exact h.2
    have hbody := Checksums.ofBody_entries c hcarries
    rw [tag, ofBody, entries, hbody]
    rfl
  | endOfFile => rfl

/-- **A message is what its value stands for**, in every version that can represent it. -/
theorem ofStructured_toStructured (h : version.canRepresent m = true) :
    ofStructured version m.toStructured = .ok m := by
  have hsupports : version.supports m.tag = true := by
    unfold ProtocolVersion.canRepresent at h
    exact (Bool.and_eq_true_iff.1 h).1
  rw [toStructured_eq, ofStructured, ofTagged, Tag.ofName?_name]
  simp only [hsupports, if_true, ofBody_entries h]
  rfl

/-- A key that is short enough to be the first of a map. -/
abbrev IsShort (key : String) : Prop := (Text.bytes key).length ≤ Cbor.pieceLimit

theorem plain_headerPair (depth : Nat) (field : String × String) :
    (headerPair field).Plain IsShort (depth + 1) := by
  refine .array fun v hv => ?_
  simp only [List.mem_cons, List.not_mem_nil, or_false] at hv
  rcases hv with rfl | rfl
  · exact .string _
  · exact .string _

theorem plain_of_mem_optionalEntry {name : String} {n : Option UInt64} {entry : String × Value}
    (hname : IsShort name) (h : entry ∈ optionalEntry name n) (depth : Nat) :
    IsShort entry.1 ∧ entry.2.Plain IsShort depth := by
  match n with
  | none => simp [optionalEntry] at h
  | some n =>
    obtain rfl := List.mem_singleton.1 h
    exact ⟨hname, .natural n⟩

/-- The fields of a message have short names and plain values. -/
theorem plain_of_mem_entries {entry : String × Value} (h : entry ∈ m.entries) :
    IsShort entry.1 ∧ entry.2.Plain IsShort 2 := by
  cases m with
  | metadata m =>
    simp only [entries, List.mem_cons, List.not_mem_nil, or_false] at h
    rcases h with rfl | rfl
    · exact ⟨(by decide : IsShort "file"), .string _⟩
    · exact ⟨(by decide : IsShort "position"), .natural _⟩
  | header header =>
    simp only [entries, List.mem_cons, List.not_mem_nil, or_false] at h
    rcases h with rfl | rfl
    · exact ⟨(by decide : IsShort "version"), .string _⟩
    · refine ⟨(by decide : IsShort "fields"), .array fun v hv => ?_⟩
      obtain ⟨field, -, rfl⟩ := List.mem_map.1 hv
      exact plain_headerPair 0 field
  | blockChunk data =>
    obtain rfl := List.mem_singleton.1 h
    exact ⟨(by decide : IsShort "data"), .string _⟩
  | blockEnd c =>
    simp only [entries, Checksums.entries, List.mem_append] at h
    rcases h with (h | h) | h
    · exact plain_of_mem_optionalEntry (by decide) h 2
    · exact plain_of_mem_optionalEntry (by decide) h 2
    · exact plain_of_mem_optionalEntry (by decide) h 2
  | endOfFile => simp [entries] at h

/-- **The value of a message is plain** and nested at most four levels deep. -/
theorem plain_document (m : Message) : m.document.Plain IsShort 4 := by
  have htag (tag : Tag) : IsShort tag.name := by
    cases tag <;> decide
  refine .object (fun entry hentry => ?_) fun entry hentry => ?_
  · obtain rfl := List.mem_singleton.1 hentry
    exact htag m.tag
  · obtain rfl := List.mem_singleton.1 hentry
    exact .object (fun e he => (plain_of_mem_entries he).1) fun e he => (plain_of_mem_entries he).2

end Message

end WarcStream
