import WarcStream.Message.Document
import WarcStream.Message.Field
import WarcStream.Proofs.Base64.Canonical
import WarcStream.Proofs.Text.Numerals
import Mathlib.Data.List.Nodup
/-!
# What the fields of a body are

For each kind of field there is a relation between a value and what the value
means, and the reader of that kind reads just that: `Value.reads_position` and
its likes. `EntriesOf` says which values have the form of a body, and what
their entries are. A body passes a schema just if it has the form of one and
each of its entries can be read (`Schema.entries_eq_ok_iff`).
-/

namespace WarcStream

namespace Value

variable {v : Value} {k bound : Nat} {expected : Expected} {pair : String × String}

/-! ## The kinds of fields -/

/-- The value is this text. -/
def IsText (v : Value) (s : String) : Prop := v = .string s

/-- The value is this number of 32 bits, written as an integer. -/
def IsWord32 (v : Value) (n : UInt32) : Prop := v = .natural n.toUInt64

/-- The value is this number of 64 bits, written as an integer. -/
def IsWord64 (v : Value) (n : UInt64) : Prop := v = .natural n

/-- The value says this position. -/
inductive IsPosition : Value → UInt64 → Prop
  /-- It is an integer. -/
  | number (n : UInt64) : IsPosition (.natural n) n
  /-- It is a numeral in a text, with white space around it or not. -/
  | numeral {s : String} {n : UInt64} {left core right : List Char} :
      s.toList = left ++ core ++ right →
      (∀ c ∈ left, Text.isWhite c = true) → (∀ c ∈ right, Text.isWhite c = true) →
      Text.Denotes core n.toNat → IsPosition (.string s) n

/-- The value is the canonical base64 text of these octets. -/
def IsData (v : Value) (data : Bytes) : Prop :=
  ∃ s, v.IsText s ∧ Base64.Writes data (Text.bytes s)

/-- The value is the list of these pairs, each a list of two texts. -/
def IsPairs (v : Value) (pairs : List (String × String)) : Prop :=
  v = .array (pairs.map headerPair)

/-- The value is null, or it has a meaning. -/
def NullOr {α : Type} (means : Value → α → Prop) (v : Value) (x : Option α) : Prop :=
  (v = .null ∧ x = none) ∨ ∃ y, means v y ∧ x = some y

/-! ## The readers -/

/-- A reader reads a value just if the value means what is read. -/
def Reads {α : Type} (read : Value → Except FieldError α) (means : Value → α → Prop) : Prop :=
  ∀ v x, read v = .ok x ↔ means v x

theorem reads_text : Reads readText IsText := by
  intro v s
  cases v <;> simp [readText, IsText]

theorem readNatural_eq_ok_iff :
    v.readNatural bound expected = .ok k ↔
      ∃ n : UInt64, v = .natural n ∧ n.toNat < bound ∧ n.toNat = k := by
  unfold readNatural
  split
  · rename_i n
    simp only [natural, Value.number.injEq, Number.natural.injEq, exists_eq_left']
    split
    · rename_i hlt
      simp [hlt]
    · rename_i hle
      simp [hle]
  · simp [natural]
  · rename_i hnatural _
    simp only [reduceCtorEq, false_iff, not_exists, not_and]
    intro n hv
    exact absurd hv (hnatural n)

theorem reads_word32 : Reads readWord32 IsWord32 := by
  intro v n
  rw [readWord32, map_eq_ok_iff]
  constructor
  · rintro ⟨k, hk, rfl⟩
    obtain ⟨n, rfl, hsmall, rfl⟩ := readNatural_eq_ok_iff.1 hk
    refine congrArg natural (UInt64.toNat_inj.1 ?_)
    rw [UInt32.toNat_toUInt64, UInt32.toNat_ofNat', Nat.mod_eq_of_lt hsmall]
  · rintro rfl
    refine ⟨n.toNat, readNatural_eq_ok_iff.2 ⟨_, rfl, ?_, ?_⟩, UInt32.ofNat_toNat⟩
    · rw [UInt32.toNat_toUInt64]
      exact n.toNat_lt
    · exact UInt32.toNat_toUInt64 n

theorem reads_word64 : Reads readWord64 IsWord64 := by
  intro v n
  rw [readWord64, map_eq_ok_iff]
  constructor
  · rintro ⟨k, hk, rfl⟩
    obtain ⟨n, rfl, -, rfl⟩ := readNatural_eq_ok_iff.1 hk
    exact congrArg natural UInt64.ofNat_toNat.symm
  · rintro rfl
    exact ⟨n.toNat, readNatural_eq_ok_iff.2 ⟨n, rfl, n.toNat_lt, rfl⟩, UInt64.ofNat_toNat⟩

theorem reads_position : Reads readPosition IsPosition := by
  intro v n
  constructor
  · intro h
    unfold readPosition at h
    split at h
    · cases h
      exact .number n
    · split at h
      · rename_i n' hn
        cases h
        obtain ⟨left, core, right, hs, hleft, hright, hcore⟩ := Text.natural?_trim_eq_some_iff.1 hn
        exact .numeral hs hleft hright hcore
      · cases h
    · cases h
  · intro h
    cases h with
    | number => rfl
    | numeral hs hleft hright hcore =>
      have hn := Text.natural?_trim_eq_some_iff.2 ⟨_, _, _, hs, hleft, hright, hcore⟩
      simp only [readPosition, hn]

theorem reads_data : Reads readData IsData := by
  intro v data
  simp only [readData, bind_eq_ok_iff, reads_text _ _, mapError_eq_ok_iff,
    Base64.decode_eq_ok_iff, IsData]

theorem readPair_eq_ok_iff : v.readPair = .ok pair ↔ v = headerPair pair := by
  obtain ⟨name, value⟩ := pair
  unfold readPair headerPair
  split
  · simp
  · simp [bind_eq_ok_iff]
  · rename_i a b rest
    simp only [bind_eq_ok_iff, reads_text _ _, IsText, array.injEq, List.cons.injEq]
    constructor
    · rintro ⟨name', rfl, value', rfl, h⟩
      split at h
      · rename_i hrest
        cases h
        exact ⟨rfl, rfl, List.isEmpty_iff.1 hrest⟩
      · cases h
    · rintro ⟨rfl, rfl, rfl⟩
      exact ⟨name, rfl, value, rfl, rfl⟩
  · rename_i hother
    simp only [reduceCtorEq, false_iff]
    intro hv
    exact hother _ _ _ hv

theorem reads_pairs : Reads readPairs IsPairs := by
  intro v pairs
  unfold readPairs IsPairs
  split
  · rename_i items
    simp only [mapM_eq_ok_iff, readPair_eq_ok_iff, array.injEq]
    rw [← List.forall₂_map_right_iff (f := headerPair), List.forall₂_eq_eq_eq]
  · rename_i hother
    simp only [reduceCtorEq, false_iff]
    intro hv
    exact hother _ hv

theorem Reads.optional {α : Type} {read : Value → Except FieldError α}
    {means : Value → α → Prop} (hread : Reads read means) (hnull : ∀ x, ¬ means .null x) :
    Reads (readOptional read) (NullOr means) := by
  intro v x
  unfold readOptional NullOr
  split
  · simp [hnull, eq_comm]
  · rename_i hv
    rw [map_eq_ok_iff]
    constructor
    · rintro ⟨y, hy, rfl⟩
      exact .inr ⟨y, (hread _ y).1 hy, rfl⟩
    · rintro (⟨hnone, -⟩ | ⟨y, hy, rfl⟩)
      · exact absurd hnone hv
      · exact ⟨y, (hread _ y).2 hy, rfl⟩

end Value

/-! ## Bodies -/

variable {body : Value} {entries : List (String × Value)} {name : String}

theorem mem_of_lookup {v : Value} (h : entries.lookup name = some v) : (name, v) ∈ entries := by
  obtain ⟨front, back, rfl, -⟩ := List.lookup_eq_some_iff.1 h
  exact List.mem_append_right front List.mem_cons_self

/-- The value has the form of a body with these entries: it is an object with no other keys than
the names, or a list of as many values as there are names, in their order. -/
inductive EntriesOf (names : List String) : Value → List (String × Value) → Prop
  | object {entries : List (String × Value)} :
      (∀ entry ∈ entries, entry.1 ∈ names) → EntriesOf names (.object entries) entries
  | array {items : List Value} :
      items.length = names.length → EntriesOf names (.array items) (names.zip items)

/-- The field is there, and it means this. A key may be given twice: the first value counts, and
the others have to have a meaning as well. -/
def Present {α : Type} (entries : List (String × Value)) (name : String)
    (means : Value → α → Prop) (x : α) : Prop :=
  (∃ v, entries.lookup name = some v ∧ means v x) ∧ ∀ v, (name, v) ∈ entries → ∃ y, means v y

/-- The field is left out, or it is there and is null or means this. -/
def Allowed {α : Type} (entries : List (String × Value)) (name : String)
    (means : Value → α → Prop) (x : Option α) : Prop :=
  ((∀ v, (name, v) ∉ entries) ∧ x = none) ∨ Present entries name (Value.NullOr means) x

/-- All that is given for a field passes its check. -/
def Field.Passes (field : Field) (entries : List (String × Value)) : Prop :=
  ∀ v, (field.name, v) ∈ entries → field.check v = .ok ()

theorem Field.passes_of_iff {α : Type} {read : Value → Except FieldError α} :
    (Field.of name read).Passes entries ↔ ∀ v, (name, v) ∈ entries → ∃ x, read v = .ok x := by
  simp [Field.Passes, Field.of, map_eq_ok_iff]

namespace Schema

variable {s : Schema} {field : Field} {v : Value}

/-- A name stands for one field. -/
theorem eq_of_name_eq {field' : Field} (hnames : s.names.Nodup) (hfield : field ∈ s.fields)
    (hfield' : field' ∈ s.fields) (h : field.name = field'.name) : field = field' :=
  List.inj_on_of_nodup_map hnames hfield hfield' h

theorem checkEntry_eq_ok_iff (hnames : s.names.Nodup) :
    s.checkEntry (name, v) = .ok () ↔
      name ∈ s.names ∧ ∀ field ∈ s.fields, field.name = name → field.check v = .ok () := by
  unfold checkEntry
  split
  · rename_i field hfind
    obtain rfl : field.name = name := by simpa using List.find?_some hfind
    have hfield := List.mem_of_find?_eq_some hfind
    constructor
    · intro h
      refine ⟨List.mem_map_of_mem hfield, fun field' hfield' hname => ?_⟩
      rwa [eq_of_name_eq hnames hfield' hfield hname]
    · rintro ⟨-, h⟩
      exact h field hfield rfl
  · rename_i hnone
    simp only [reduceCtorEq, false_iff]
    rintro ⟨hname, -⟩
    obtain ⟨field, hfield, rfl⟩ := List.mem_map.1 hname
    simpa using List.find?_eq_none.1 hnone field hfield

theorem checkItems_eq_ok_iff {total count : Nat} {fields : List Field} {items : List Value} :
    s.checkItems total fields items count = .ok () ↔
      items.length = fields.length ∧
        ∀ pair ∈ fields.zip items, pair.1.check pair.2 = .ok () := by
  induction fields generalizing items count with
  | nil =>
    cases items with
    | nil => simp [checkItems]
    | cons v rest => simp [checkItems]
  | cons field fields ih =>
    cases items with
    | nil => simp [checkItems]
    | cons v rest =>
      simp only [checkItems, seq_eq_ok_iff, ih, List.length_cons, Nat.add_right_cancel_iff,
        List.zip_cons_cons, List.forall_mem_cons]
      exact and_left_comm

/-- **A body passes** just if it has the form of one and each of its values passes the check of its
field. -/
theorem entries_eq_ok_iff (hnames : s.names.Nodup) :
    s.entries body = .ok entries ↔
      EntriesOf s.names body entries ∧ ∀ field ∈ s.fields, field.Passes entries := by
  constructor
  · intro h
    unfold Schema.entries at h
    split at h
    · rename_i given
      simp only [seq_eq_ok_iff, pure_eq_ok_iff, forM_eq_ok_iff] at h
      obtain ⟨hpass, rfl⟩ := h
      refine ⟨.object fun entry hentry => ?_, fun field hfield v hv => ?_⟩
      · exact ((checkEntry_eq_ok_iff hnames).1 (hpass entry hentry)).1
      · exact ((checkEntry_eq_ok_iff hnames).1 (hpass _ hv)).2 field hfield rfl
    · rename_i items
      simp only [seq_eq_ok_iff, pure_eq_ok_iff, checkItems_eq_ok_iff] at h
      obtain ⟨⟨hlen, hpass⟩, rfl⟩ := h
      refine ⟨.array (by rw [hlen, names, List.length_map]), fun field hfield v hv => ?_⟩
      rw [names, List.zip_map_left, List.mem_map] at hv
      obtain ⟨⟨field', v'⟩, hpair, heq⟩ := hv
      obtain ⟨hname, rfl⟩ := Prod.mk.inj heq
      rw [← eq_of_name_eq hnames (List.of_mem_zip hpair).1 hfield hname]
      exact hpass _ hpair
    · cases h
  · rintro ⟨hform, hpass⟩
    cases hform with
    | object hknown =>
      simp only [Schema.entries, seq_eq_ok_iff, forM_eq_ok_iff]
      refine ⟨fun entry hentry => ?_, rfl⟩
      refine (checkEntry_eq_ok_iff hnames).2 ⟨hknown entry hentry, ?_⟩
      intro field hfield hname
      refine hpass field hfield entry.2 ?_
      rwa [hname]
    | array hlen =>
      simp only [Schema.entries, seq_eq_ok_iff, checkItems_eq_ok_iff]
      rw [names, List.length_map] at hlen
      refine ⟨⟨hlen, fun pair hpair => ?_⟩, rfl⟩
      refine hpass pair.1 (List.of_mem_zip hpair).1 pair.2 ?_
      rw [names, List.zip_map_left]
      exact List.mem_map.2 ⟨pair, hpair, rfl⟩

end Schema

section Read

variable {α : Type} {read : Value → Except FieldError α} {means : Value → α → Prop}

/-- A field that must be there is read, and all that is given for it passes. -/
theorem present_iff {x : α} (hread : Value.Reads read means) :
    ((Field.of name read).Passes entries ∧ requiredField name read entries = .ok x) ↔
      Present entries name means x := by
  simp only [Field.passes_of_iff, hread _ _, Present, requiredField]
  rw [and_comm]
  refine and_congr_left fun _ => ?_
  split
  · rename_i v hv
    simp [hv, hread v]
  · rename_i hnone
    simp [hnone]

/-- A field that may be left out is read, and all that is given for it passes. -/
theorem allowed_iff {x : Option α} (hread : Value.Reads read means)
    (hnull : ∀ y, ¬ means .null y) :
    ((Field.of name (Value.readOptional read)).Passes entries ∧
        optionalField name read entries = .ok x) ↔ Allowed entries name means x := by
  have hoptional := hread.optional hnull
  simp only [Field.passes_of_iff, hoptional _ _, Allowed, Present, optionalField]
  split
  · rename_i v hv
    have hmem := mem_of_lookup hv
    have hin : ¬ ∀ v, (name, v) ∉ entries := fun hout => hout v hmem
    simp only [hv, hin, hoptional _ _, false_and, false_or, Option.some.injEq, exists_eq_left']
    exact and_comm
  · rename_i hnone
    have hout (v : Value) : (name, v) ∉ entries := by
      intro hmem
      simpa using List.lookup_eq_none_iff.1 hnone _ hmem
    simp [hnone, hout, eq_comm]

end Read

end WarcStream
