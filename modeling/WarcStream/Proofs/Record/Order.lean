import WarcStream.Record.Sequence
import Mathlib.Computability.RegularExpressions
/-!
# The order of a stream as a regular language

`streamOrder` is the expression whose words are the tags of whole streams, and
a word is `Viable` if a stream may start with it. `SentRecord` holds what a
record consists of, with the messages it is sent as and the summary it has.
A list of messages has the tags of a whole stream just if it is the messages
of some records, with or without the end of the file
(`tags_mem_streamOrder_iff`).
-/

namespace WarcStream

open RegularExpression

/-- The order of the messages of a record: any number of locations, a header, any number of pieces
of its block, and the end of the block. -/
def recordOrder : RegularExpression Tag :=
  star (char .metadata) * char .header * star (char .blockChunk) * char .blockEnd

/-- The order of the messages of a stream: any number of records, and the end of the file or not. -/
def streamOrder : RegularExpression Tag := star recordOrder * (1 + char .endOfFile)

/-- A stream may start with these tags. -/
def Viable (tags : List Tag) : Prop := ∃ rest, tags ++ rest ∈ streamOrder.matches'

/-- What a record that is sent consists of. -/
structure SentRecord where
  /-- Where the record came from, the last of which counts. -/
  locations : List Metadata
  header : Header
  chunks : List Bytes
  checksums : Checksums

namespace SentRecord

/-- The messages before the end of the block. -/
def opening (r : SentRecord) : List Message :=
  r.locations.map .metadata ++ .header r.header :: r.chunks.map .blockChunk

/-- The messages of a record. -/
def messages (r : SentRecord) : List Message := r.opening ++ [.blockEnd r.checksums]

/-- What is known of a record once it is closed. -/
def summary (r : SentRecord) : RecordSummary :=
  { metadata := r.locations.getLast?
    version := r.header.version
    fieldCount := r.header.fields.length
    chunkCount := r.chunks.length
    blockLength := r.chunks.flatten.length
    checksums := r.checksums }

end SentRecord

variable {tag : Tag} {w : List Tag} {ms tail : List Message} {records : List SentRecord}

/-! ## Words -/

theorem mem_star_char : w ∈ (star (char tag)).matches' ↔ ∃ n, w = List.replicate n tag := by
  rw [matches'_star, matches'_char, Language.mem_kstar]
  constructor
  · rintro ⟨words, rfl, hwords⟩
    refine ⟨words.flatten.length, List.eq_replicate_iff.2 ⟨rfl, fun t ht => ?_⟩⟩
    obtain ⟨word, hword, ht⟩ := List.mem_flatten.1 ht
    have hone : word = [tag] := hwords word hword
    rw [hone] at ht
    exact List.mem_singleton.1 ht
  · rintro ⟨n, rfl⟩
    refine ⟨List.replicate n [tag], by simp, fun word hword => ?_⟩
    exact List.eq_of_mem_replicate hword

theorem mem_recordOrder :
    w ∈ recordOrder.matches' ↔
      ∃ i j, w = List.replicate i .metadata ++ .header :: List.replicate j .blockChunk ++
        [.blockEnd] := by
  simp only [recordOrder, matches'_mul, Language.mem_mul, mem_star_char, matches'_char]
  constructor
  · rintro ⟨-, ⟨-, ⟨-, ⟨i, rfl⟩, -, rfl, rfl⟩, -, ⟨j, rfl⟩, rfl⟩, -, rfl, rfl⟩
    exact ⟨i, j, by simp⟩
  · rintro ⟨i, j, rfl⟩
    exact ⟨_, ⟨_, ⟨_, ⟨i, rfl⟩, _, rfl, rfl⟩, _, ⟨j, rfl⟩, rfl⟩, _, rfl, by simp⟩

theorem mem_streamOrder :
    w ∈ streamOrder.matches' ↔
      ∃ words : List (List Tag), ∃ rest, (∀ word ∈ words, word ∈ recordOrder.matches') ∧
        (rest = [] ∨ rest = [.endOfFile]) ∧ w = words.flatten ++ rest := by
  simp only [streamOrder, matches'_mul, matches'_star, matches'_add, matches'_epsilon,
    matches'_char, Language.mem_mul, Language.mem_kstar, Language.mem_add, Language.mem_one]
  constructor
  · rintro ⟨-, ⟨words, rfl, hwords⟩, rest, hrest, rfl⟩
    exact ⟨words, rest, hwords, hrest, rfl⟩
  · rintro ⟨words, rest, hwords, hrest, rfl⟩
    exact ⟨_, ⟨words, rfl, hwords⟩, rest, hrest, rfl⟩

/-! ## Messages -/

theorem exists_tag_eq (tag : Tag) : ∃ m : Message, m.tag = tag := by
  cases tag with
  | metadata => exact ⟨.metadata ⟨"", 0⟩, rfl⟩
  | header => exact ⟨.header ⟨"", []⟩, rfl⟩
  | blockChunk => exact ⟨.blockChunk [], rfl⟩
  | blockEnd => exact ⟨.blockEnd {}, rfl⟩
  | endOfFile => exact ⟨.endOfFile, rfl⟩

/-- Every word is the tags of some messages. -/
theorem exists_tags_eq (w : List Tag) : ∃ ms : List Message, ms.map Message.tag = w :=
  List.map_surjective_iff.2 exists_tag_eq w

/-- Messages that are all of one kind. -/
theorem exists_map_of_tags {α : Type} {make : α → Message} {n : Nat}
    (hmake : ∀ m : Message, m.tag = tag → ∃ x, make x = m)
    (h : ms.map Message.tag = List.replicate n tag) : ∃ xs : List α, ms = xs.map make := by
  have hall : ms ∈ Set.range (List.map make) := by
    rw [Set.range_list_map]
    intro m hm
    have htag : m.tag ∈ List.replicate n tag := h ▸ List.mem_map_of_mem hm
    exact hmake m (List.eq_of_mem_replicate htag)
  obtain ⟨xs, rfl⟩ := hall
  exact ⟨xs, rfl⟩

/-- The tags of a record's messages are in the order of a record. -/
theorem SentRecord.tags_messages (r : SentRecord) :
    r.messages.map Message.tag ∈ recordOrder.matches' := by
  refine mem_recordOrder.2 ⟨r.locations.length, r.chunks.length, ?_⟩
  simp only [messages, opening, List.map_append, List.map_cons, List.map_map, List.map_nil]
  congr 2
  · exact List.map_eq_replicate_iff.2 fun _ _ => rfl
  · exact congrArg _ (List.map_eq_replicate_iff.2 fun _ _ => rfl)

/-- Messages in the order of a record are those of one. -/
theorem exists_messages_eq (h : ms.map Message.tag ∈ recordOrder.matches') :
    ∃ r : SentRecord, ms = r.messages := by
  obtain ⟨i, j, htags⟩ := mem_recordOrder.1 h
  obtain ⟨opening, last, rfl, hopening, hlast⟩ := List.map_eq_append_iff.1 htags
  obtain ⟨front, body, rfl, hfront, hbody⟩ := List.map_eq_append_iff.1 hopening
  obtain ⟨m, chunks, rfl, hm, hchunks⟩ := List.map_eq_cons_iff.1 hbody
  obtain ⟨e, rfl, he⟩ := List.map_eq_singleton_iff.1 hlast
  obtain ⟨locations, rfl⟩ : ∃ locations : List Metadata, front = locations.map .metadata := by
    refine exists_map_of_tags (fun m hm => ?_) hfront
    cases m with
    | metadata location => exact ⟨location, rfl⟩
    | header | blockChunk | blockEnd | endOfFile => cases hm
  obtain ⟨pieces, rfl⟩ : ∃ pieces : List Bytes, chunks = pieces.map .blockChunk := by
    refine exists_map_of_tags (fun m hm => ?_) hchunks
    cases m with
    | blockChunk data => exact ⟨data, rfl⟩
    | metadata | header | blockEnd | endOfFile => cases hm
  cases m with
  | header header =>
    cases e with
    | blockEnd checksums => exact ⟨⟨locations, header, pieces, checksums⟩, rfl⟩
    | metadata | header | blockChunk | endOfFile => cases he
  | metadata | blockChunk | blockEnd | endOfFile => cases hm

/-- **The tags of a whole stream** are those of the messages of records, with the end of the file
behind them or not. -/
theorem tags_mem_streamOrder_iff :
    ms.map Message.tag ∈ streamOrder.matches' ↔
      ∃ (records : List SentRecord) (tail : List Message),
        (tail = [] ∨ tail = [.endOfFile]) ∧ ms = records.flatMap SentRecord.messages ++ tail := by
  rw [mem_streamOrder]
  constructor
  · rintro ⟨words, rest, hwords, hrest, hms⟩
    -- along the words, each of which is split off the front of the messages
    induction words generalizing ms with
    | nil =>
      refine ⟨[], ms, ?_, rfl⟩
      rcases hrest with rfl | rfl
      · exact .inl (List.map_eq_nil_iff.1 hms)
      · obtain ⟨m, rfl, hm⟩ := List.map_eq_singleton_iff.1 hms
        cases m with
        | endOfFile => exact .inr rfl
        | metadata | header | blockChunk | blockEnd => cases hm
    | cons word words ih =>
      rw [List.flatten_cons, List.append_assoc] at hms
      obtain ⟨front, behind, rfl, hfront, hbehind⟩ := List.map_eq_append_iff.1 hms
      have hword := hwords word List.mem_cons_self
      rw [← hfront] at hword
      obtain ⟨r, rfl⟩ := exists_messages_eq hword
      obtain ⟨records, tail, htail, rfl⟩ :=
        ih (fun x hx => hwords x (List.mem_cons_of_mem word hx)) hbehind
      exact ⟨r :: records, tail, htail, by rw [List.flatMap_cons, List.append_assoc]⟩
  · rintro ⟨records, tail, htail, rfl⟩
    refine ⟨records.map fun r => r.messages.map Message.tag, tail.map Message.tag, ?_, ?_, ?_⟩
    · intro word hword
      obtain ⟨r, -, rfl⟩ := List.mem_map.1 hword
      exact r.tags_messages
    · rcases htail with rfl | rfl
      · exact .inl rfl
      · exact .inr rfl
    · rw [List.map_append, List.map_flatMap, List.flatMap_def]

end WarcStream
