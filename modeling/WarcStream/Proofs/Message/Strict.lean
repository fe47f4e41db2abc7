import WarcStream.Proofs.Cbor.Soundness
import WarcStream.Proofs.Json.Soundness
import WarcStream.Proofs.Message.Document
import WarcStream.Proofs.Message.Grammar
import WarcStream.Proofs.Ordered
/-!
# The strict form of a message

A message has one strict form, an object of its fields under its tag, and a
decoder takes a few lenient ones besides. What is decoded from the strict form
has just this form as its value (`toStructured_eq_of_strict`): no field is
dropped, added or spelled in another way. So a message differs from what it was
decoded from just where one of the leniencies was taken
(`Message.strict_form_kept`).
-/

namespace WarcStream

variable {v w : Value} {name : String} {entries entries' : List (String × Value)}
variable {names : List String} {version : ProtocolVersion} {m : Message}

/-! ## The forms of a value -/

namespace Value

/-- **The strict form**: one key with an object under it, where a position is a number and no
checksum is null. -/
inductive Strict : Value → Prop
  | object {name : String} {entries : List (String × Value)} :
      (name = "Metadata" → ∀ w, ("position", w) ∈ entries → ∃ n, w = .number n) →
      (name = "BlockEnd" → ∀ entry ∈ entries, entry.2 ≠ .null) →
      Strict (.object [(name, .object entries)])

/-- **The leniencies**, of which a value takes at least one. -/
inductive Lenient : Value → Prop
  /-- A bare name. -/
  | bareName (name : String) : Lenient (.string name)
  /-- A list of the fields in their order. -/
  | listBody (name : String) (items : List Value) : Lenient (.object [(name, .array items)])
  /-- A text for the position. -/
  | textPosition {entries : List (String × Value)} {s : String} :
      ("position", .string s) ∈ entries → Lenient (.object [("Metadata", .object entries)])
  /-- A checksum that is null. -/
  | nullChecksum {entries : List (String × Value)} {name : String} :
      (name, .null) ∈ entries → Lenient (.object [("BlockEnd", .object entries)])

theorem Lenient.not_strict (h : v.Lenient) : ¬ v.Strict := by
  intro hstrict
  cases h with
  | bareName => cases hstrict
  | listBody => cases hstrict
  | textPosition hmem =>
    cases hstrict with
    | object hposition _ =>
      obtain ⟨n, hn⟩ := hposition rfl _ hmem
      cases hn
  | nullChecksum hmem =>
    cases hstrict with
    | object _ hnull => exact hnull rfl _ hmem rfl

/-- The base64 text of octets is the only one. -/
theorem IsData.eq_base64Text {data : Bytes} (h : v.IsData data) :
    v = .string (base64Text data) := by
  obtain ⟨s, rfl, hwrites⟩ := h
  have hbytes : Text.bytes s = Text.bytes (base64Text data) := by
    rw [bytes_base64Text]
    exact Base64.writes_iff.1 hwrites
  have htext := Text.ofBytes?_bytes s
  rw [hbytes, Text.ofBytes?_bytes] at htext
  exact congrArg Value.string (Option.some.inj htext).symm

/-- **Different values are never read as the same octets.** -/
theorem readData_inj {data : Bytes} (h : v.readData = .ok data) (h' : w.readData = .ok data) :
    v = w :=
  ((reads_data _ _).1 h).eq_base64Text.trans ((reads_data _ _).1 h').eq_base64Text.symm

end Value

/-! ## The members of a body -/

/-- Objects with these names alone have the same members if they have the same of each name. -/
theorem mem_iff_of_names (h : ∀ entry ∈ entries, entry.1 ∈ names)
    (h' : ∀ entry ∈ entries', entry.1 ∈ names)
    (hmem : ∀ name ∈ names, ∀ w, (name, w) ∈ entries ↔ (name, w) ∈ entries')
    (entry : String × Value) : entry ∈ entries ↔ entry ∈ entries' := by
  obtain ⟨name, w⟩ := entry
  constructor
  · intro hin
    exact (hmem name (h _ hin) w).1 hin
  · intro hin
    exact (hmem name (h' _ hin) w).2 hin

section Fields

variable {α : Type} {means : Value → α → Prop} {spell : α → Value}

/-- A field that is there is spelled as what it means, if it has no other spelling. -/
theorem Present.mem_iff {x : α} (h : Present entries name means x)
    (hnames : (entries.map Prod.fst).Nodup)
    (hspell : ∀ w y, (name, w) ∈ entries → means w y → w = spell y) (w : Value) :
    (name, w) ∈ entries ↔ w = spell x := by
  obtain ⟨⟨v, hlookup, hv⟩, -⟩ := h
  have hmem := mem_of_lookup hlookup
  have hvalue : v = spell x := hspell v x hmem hv
  rw [← hvalue]
  constructor
  · intro hw
    exact congrArg Prod.snd (List.inj_on_of_nodup_map hnames hw hmem rfl)
  · rintro rfl
    exact hmem

/-- A field that may be left out is there just if it means something, unless it is null. -/
theorem Allowed.mem_iff {x : Option α} (h : Allowed entries name means x)
    (hnames : (entries.map Prod.fst).Nodup) (hnull : (name, .null) ∉ entries)
    (hspell : ∀ w y, means w y → w = spell y) (w : Value) :
    (name, w) ∈ entries ↔ ∃ y, x = some y ∧ w = spell y := by
  rcases h with ⟨hout, rfl⟩ | hpresent
  · simp [hout w]
  · have hspelled : ∀ w (x : Option α), (name, w) ∈ entries → Value.NullOr means w x →
        w = x.elim .null spell := by
      rintro w x - (⟨rfl, rfl⟩ | ⟨y, hy, rfl⟩)
      · rfl
      · exact hspell w y hy
    have hmem := hpresent.mem_iff hnames hspelled
    cases x with
    | none => exact absurd ((hmem .null).2 rfl) hnull
    | some y => simpa using hmem w

end Fields

/-- A field that is written if it is there. -/
theorem mem_optionalEntry_iff {key : String} {n : Option UInt64} :
    (key, w) ∈ optionalEntry name n ↔ key = name ∧ ∃ k, n = some k ∧ w = .natural k := by
  cases n with
  | none => simp [optionalEntry]
  | some k => simp [optionalEntry]

namespace Message

/-- **The members of a strict body are those of its message.** -/
theorem mem_entries_iff (hbody : HasBody version (.object entries) m)
    (hnames : (entries.map Prod.fst).Nodup)
    (hposition : m.tag = .metadata → ∀ w, ("position", w) ∈ entries → ∃ n, w = .number n)
    (hnull : m.tag = .blockEnd → ∀ entry ∈ entries, entry.2 ≠ .null) (entry : String × Value) :
    entry ∈ m.entries ↔ entry ∈ entries := by
  cases hbody with
  | @metadata _ _ _ m hform hfile hplace =>
    cases hform with
    | object hknown =>
      -- a position that is a number has no other spelling
      have hnumber : ∀ w n, ("position", w) ∈ entries → w.IsPosition n → w = .natural n := by
        intro w n hw hn
        cases hn with
        | number => rfl
        | numeral =>
          obtain ⟨k, hk⟩ := hposition rfl _ hw
          cases hk
      have hfile := hfile.mem_iff hnames fun w s _ hw => hw
      have hplace := hplace.mem_iff hnames hnumber
      refine mem_iff_of_names (by simp [Message.entries]) hknown ?_ entry
      simp [Message.entries, hfile, hplace]
  | @header _ _ _ h hform hversion hfields =>
    cases hform with
    | object hknown =>
      have hversion := hversion.mem_iff hnames fun w s _ hw => hw
      have hfields := hfields.mem_iff hnames fun w s _ hw => hw
      refine mem_iff_of_names (by simp [Message.entries]) hknown ?_ entry
      simp [Message.entries, hversion, hfields]
  | @blockChunk _ _ _ data hform hdata =>
    cases hform with
    | object hknown =>
      have hdata := hdata.mem_iff hnames fun w s _ hw => hw.eq_base64Text
      refine mem_iff_of_names (by simp [Message.entries]) hknown ?_ entry
      simp [Message.entries, hdata]
  | @checksum _ _ n hform hn =>
    cases hform with
    | object hknown =>
      have hone : Message.entries (.blockEnd { crc32c := some n }) =
          [("crc32c", .natural n.toUInt64)] := rfl
      have hn := hn.mem_iff hnames fun w s _ hw => hw
      refine mem_iff_of_names (by simp [hone]) hknown ?_ entry
      simp [hone, hn]
  | @checksums _ _ c hform hcrc32 hcrc32c hxxh3 =>
    cases hform with
    | object hknown =>
      have hnone (name : String) : (name, Value.null) ∉ entries := by
        intro hmem
        exact hnull rfl _ hmem rfl
      have hcrc32 := hcrc32.mem_iff hnames (hnone _) fun w s hw => hw
      have hcrc32c := hcrc32c.mem_iff hnames (hnone _) fun w s hw => hw
      have hxxh3 := hxxh3.mem_iff hnames (hnone _) fun w s hw => hw
      refine mem_iff_of_names ?_ hknown ?_ entry
      · rintro ⟨name, w⟩ hmem
        simp only [Message.entries, Checksums.entries, List.mem_append,
          mem_optionalEntry_iff] at hmem
        rcases hmem with (⟨rfl, -⟩ | ⟨rfl, -⟩) | ⟨rfl, -⟩
        · simp
        · simp
        · simp
      · simp [Message.entries, Checksums.entries, mem_optionalEntry_iff, hcrc32, hcrc32c, hxxh3]
  | endOfFile hform =>
    cases hform with
    | object hknown => exact mem_iff_of_names (by simp [Message.entries]) hknown (by simp) entry

/-- Sorting keeps the members of a body. -/
theorem exists_sorted_entries (m : Message) :
    ∃ body, (Value.object m.entries).sorted = .object body ∧
      ∀ entry, entry ∈ body ↔ entry ∈ m.entries := by
  cases m with
  | metadata | blockChunk | endOfFile => exact ⟨_, rfl, fun _ => Iff.rfl⟩
  | header h => exact ⟨_, h.sorted_entries, fun entry => (List.Perm.swap _ _ _).mem_iff⟩
  | blockEnd c => exact ⟨_, c.sorted_entries, fun _ => Iff.rfl⟩

/-- **The value of a message is in the strict form.** -/
theorem strict_toStructured (m : Message) : m.toStructured.Strict := by
  obtain ⟨body, hsorted, hmem⟩ := m.exists_sorted_entries
  rw [toStructured_eq, hsorted]
  refine .object (fun hname w hw => ?_) fun hname entry hentry => ?_
  · have htag : m.tag = .metadata := Tag.name_inj hname
    rw [hmem] at hw
    cases m with
    | metadata m =>
      simp only [entries, List.mem_cons, Prod.mk.injEq, List.not_mem_nil, or_false] at hw
      obtain ⟨hfile, -⟩ | ⟨-, rfl⟩ := hw
      · exact absurd hfile (by decide)
      · exact ⟨_, rfl⟩
    | header | blockChunk | blockEnd | endOfFile => cases htag
  · have htag : m.tag = .blockEnd := Tag.name_inj hname
    rw [hmem] at hentry
    cases m with
    | blockEnd c =>
      obtain ⟨key, w⟩ := entry
      simp only [entries, Checksums.entries, List.mem_append, mem_optionalEntry_iff] at hentry
      obtain (⟨-, k, -, rfl⟩ | ⟨-, k, -, rfl⟩) | ⟨-, k, -, rfl⟩ := hentry
      · exact fun h => by cases h
      · exact fun h => by cases h
      · exact fun h => by cases h
    | header | blockChunk | metadata | endOfFile => cases htag

/-- A body is an object or a list. -/
theorem HasBody.exists_entriesOf {body : Value} (h : HasBody version body m) :
    ∃ names entries, EntriesOf names body entries := by
  cases h with
  | metadata hform | header hform | blockChunk hform | checksum hform | checksums hform
  | endOfFile hform => exact ⟨_, _, hform⟩

/-- What is decoded is in the strict form, or it takes a leniency. -/
theorem strict_or_lenient (h : ofStructured version v = .ok m) : v.Strict ∨ v.Lenient := by
  obtain ⟨-, body, htagged, hbody⟩ := ofStructured_eq_ok_iff.1 h
  generalize hname : m.tag.name = name at htagged
  cases htagged with
  | bare => exact .inr (.bareName _)
  | object =>
    obtain ⟨names, entries, hform⟩ := hbody.exists_entriesOf
    cases hform with
    | array => exact .inr (.listBody _ _)
    | object =>
      by_contra hneither
      rw [not_or] at hneither
      obtain ⟨hstrict, hlenient⟩ := hneither
      refine hstrict (.object ?_ ?_)
      · rintro rfl w hw
        have htag : m.tag = .metadata := Tag.name_inj hname
        cases hbody with
        | metadata hform _ hplace =>
          cases hform with
          | object =>
            obtain ⟨n, hn⟩ := hplace.2 w hw
            cases hn with
            | number => exact ⟨_, rfl⟩
            | numeral => exact absurd (.textPosition hw) hlenient
        | header | blockChunk | checksum | checksums | endOfFile => cases htag
      · rintro rfl ⟨key, w⟩ hentry rfl
        exact hlenient (.nullChecksum hentry)

/-- **The strict form is kept**: what is decoded from a value in order has it as its value. -/
theorem toStructured_eq_of_strict (hordered : v.Ordered) (hstrict : v.Strict)
    (h : ofStructured version v = .ok m) : m.toStructured = v := by
  obtain ⟨-, body, htagged, hbody⟩ := ofStructured_eq_ok_iff.1 h
  obtain @⟨name, entries, hposition, hnull⟩ := hstrict
  generalize hname : m.tag.name = name at htagged
  cases htagged
  obtain ⟨-, hinner⟩ := Value.ordered_object_iff.1 hordered
  obtain ⟨hnames, -⟩ := Value.ordered_object_iff.1 (hinner _ List.mem_cons_self)
  -- the members of the message, in order as well, are those of the body
  obtain ⟨members, hsorted, hmem⟩ := m.exists_sorted_entries
  have hordered' := Value.ordered_sorted (.object m.entries)
  rw [hsorted] at hordered'
  obtain ⟨hnames', -⟩ := Value.ordered_object_iff.1 hordered'
  have hsame : members = entries := by
    refine eq_of_sortedNames hnames' hnames fun entry => (hmem entry).trans ?_
    refine mem_entries_iff hbody hnames.nodup (fun htag => hposition ?_) (fun htag => hnull ?_) entry
    · rw [← hname, htag]
      rfl
    · rw [← hname, htag]
      rfl
  rw [toStructured_eq, hsorted, hsame, hname]

/-- **The strict form is kept, and nothing else is.** Take any value in order that is decoded, such
as whatever is read from a JSON text or from a CBOR item. The value of the message is the value it
was decoded from just if that is in the strict form: no field is dropped, none takes a default and
none is spelled in another way. It differs just if one of the leniencies was taken. And values that
are read as the same octets are the same, so that no two base64 texts stand for the same data. -/
theorem strict_form_kept :
    (∀ (version : ProtocolVersion) (v : Value) (m : Message), v.Ordered →
      ofStructured version v = .ok m →
      (m.toStructured = v ↔ v.Strict) ∧ (m.toStructured ≠ v ↔ v.Lenient)) ∧
    (∀ (v w : Value) (data : Bytes), v.readData = .ok data → w.readData = .ok data → v = w) ∧
    (∀ text v, Json.parse text = .ok v → v.Ordered) ∧
    ∀ item v, Cbor.parse item = .ok v → v.Ordered := by
  refine ⟨fun version v m hordered h => ?_, fun v w data => Value.readData_inj, ?_, ?_⟩
  · have hstrict : m.toStructured = v ↔ v.Strict := by
      constructor
      · rintro rfl
        exact m.strict_toStructured
      · intro hstrict
        exact toStructured_eq_of_strict hordered hstrict h
    refine ⟨hstrict, ?_⟩
    rw [ne_eq, hstrict]
    constructor
    · exact (strict_or_lenient h).resolve_left
    · exact Value.Lenient.not_strict
  · intro text v hparse
    obtain ⟨w, -, rfl⟩ := Json.spells_of_parse hparse
    exact w.ordered_sorted
  · intro item v hparse
    obtain ⟨w, -, rfl⟩ := Cbor.spells_of_parse hparse
    exact w.ordered_sorted

/-- A position in the file with the empty name, as it is given here. -/
def positionForm (position : Value) : Value :=
  .object [("Metadata", .object [("file", .string ""), ("position", position)])]

/-- A number for the position is kept, and a numeral in a text becomes the number. -/
theorem strict_form_kept_position :
    ((positionForm (.natural 7)).Ordered ∧
      ofStructured .v2 (positionForm (.natural 7)) = .ok (.metadata ⟨"", 7⟩)) ∧
    ((positionForm (.string " 7")).Ordered ∧
      ofStructured .v2 (positionForm (.string " 7")) = .ok (.metadata ⟨"", 7⟩)) ∧
    (Message.metadata ⟨"", 7⟩).toStructured = positionForm (.natural 7) ∧
    (Message.metadata ⟨"", 7⟩).toStructured ≠ positionForm (.string " 7") := by
  have hordered : (positionForm (.natural 7)).Ordered := by decide
  have hordered' : (positionForm (.string " 7")).Ordered := by decide
  have hnumber : ofStructured .v2 (positionForm (.natural 7)) = .ok (.metadata ⟨"", 7⟩) := by decide
  have htext : ofStructured .v2 (positionForm (.string " 7")) = .ok (.metadata ⟨"", 7⟩) := by
    decide +kernel
  have hstrict : (positionForm (.natural 7)).Strict :=
    .object (fun _ w hw => ⟨.natural 7, by simpa [Value.natural] using hw⟩)
      fun h => absurd h (by decide)
  have hlenient : (positionForm (.string " 7")).Lenient :=
    .textPosition (List.mem_cons_of_mem _ List.mem_cons_self)
  obtain ⟨hkept, -⟩ := strict_form_kept
  exact ⟨⟨hordered, hnumber⟩, ⟨hordered', htext⟩, (hkept .v2 _ _ hordered hnumber).1.2 hstrict,
    (hkept .v2 _ _ hordered' htext).2.2 hlenient⟩

end Message

end WarcStream
