import WarcStream.Proofs.Message.Grammar
import WarcStream.Proofs.Message.Yield
/-!
# What the second version keeps of the first

A message of the first version is the same message in the second, but for one
way to write it. A body may stand as the list of its fields; the block end of
the first version has one field and that of the second three, so a list with a
checksum alone is a block end in the first version and too short a list in the
second. `HasBody.upgrade` is the inclusion, one case for each kind of body;
`ofStructured_upgrade` adds the exception, and what holds of a value holds of
segments, of items and of a whole stream (`MessageReader.yields_upgrade`).
-/

namespace WarcStream

variable {body v : Value} {m : Message} {ms : List Message}

/-- The value is a block end whose body is a list with one value in it. -/
def Value.listsOneChecksum : Value → Bool
  | .object [(name, .array [_])] => name == Tag.blockEnd.name
  | _ => false

/-- What the second version says of a list with a checksum alone. -/
def DecodeReason.twoChecksumsShort : DecodeReason :=
  .fields .blockEnd (.tooShort 1 (.body "BlockEnd") 3)

theorem Value.listsOneChecksum_iff :
    v.listsOneChecksum = true ↔ ∃ item, v = .object [(Tag.blockEnd.name, .array [item])] := by
  unfold listsOneChecksum
  split
  · rename_i name item
    simp
  · rename_i hother
    simp only [Bool.false_eq_true, false_iff, not_exists]
    intro item hv
    exact hother _ _ hv

/-! ## Bodies -/

namespace Message

/-- **A body of the first version** is one of the second, with the same meaning, unless it is a
block end written as a list. -/
theorem HasBody.upgrade (h : HasBody .v1 body m)
    (hform : ∀ item, m.tag = .blockEnd → body ≠ .array [item]) : HasBody .v2 body m := by
  cases h with
  | metadata hentries hfile hposition => exact .metadata hentries hfile hposition
  | header hentries hversion hfields => exact .header hentries hversion hfields
  | blockChunk hentries hdata => exact .blockChunk hentries hdata
  | endOfFile hentries => exact .endOfFile hentries
  | @checksum _ entries n hentries hn =>
    cases hentries with
    | array hlen =>
      obtain ⟨item, rfl⟩ := List.length_eq_one_iff.1 hlen
      exact absurd rfl (hform item rfl)
    | object hknown =>
      -- the keys that the second version adds are left out, for the first knows but one
      have hout (name : String) (hname : name ≠ "crc32c") (v : Value) : (name, v) ∉ entries := by
        intro hin
        exact hname (List.mem_singleton.1 (hknown _ hin))
      obtain ⟨⟨v, hlookup, hv⟩, hothers⟩ := hn
      have hpresent : Present entries "crc32c" (Value.NullOr Value.IsWord32) (some n) := by
        refine ⟨⟨v, hlookup, .inr ⟨n, hv, rfl⟩⟩, fun other hother => ?_⟩
        obtain ⟨k, hk⟩ := hothers other hother
        exact ⟨some k, .inr ⟨k, hk, rfl⟩⟩
      refine .checksums (.object fun entry hentry => ?_) (.inl ⟨hout _ (by decide), rfl⟩)
        (.inr hpresent) (.inl ⟨hout _ (by decide), rfl⟩)
      rw [List.mem_singleton.1 (hknown entry hentry)]
      decide

/-- A list with one value is a block end of the first version only if the value is a checksum, and
the second version then finds it too short. -/
theorem ofBody_listed {item : Value} (h : HasBody .v1 (.array [item]) m) (hm : m.tag = .blockEnd) :
    ofBody .v2 (.array [item]) .blockEnd = .error (.tooShort 1 (.body "BlockEnd") 3) := by
  cases h with
  | @checksum _ entries n hentries hn =>
    cases hentries with
    | array _ =>
      obtain ⟨⟨v, hlookup, hv⟩, -⟩ := hn
      obtain rfl : item = v := by simpa using hlookup
      have hread := (Value.reads_word32 item n).2 hv
      have hoptional : item.readOptional Value.readWord32 = .ok (some n) :=
        (Value.reads_word32.optional (by simp [Value.IsWord32, Value.natural]) item (some n)).2
          (.inr ⟨n, hv, rfl⟩)
      simp only [ofBody, Checksums.ofBody, Schema.entries, Checksums.schema, Schema.checkItems,
        Field.of, hoptional]
      rfl
  | _ => cases hm

end Message

/-! ## Values, segments and items -/

/-- The tags of the first version are tags of the second. -/
theorem ProtocolVersion.tags_subset : tags .v1 ⊆ tags .v2 := by
  decide

/-- Only an empty body has another form than that of an object under its tag. -/
theorem Value.IsTagged.eq_object {name : String} (h : v.IsTagged name body)
    (hbody : body ≠ .object []) : v = .object [(name, body)] := by
  cases h with
  | object => rfl
  | bare => exact absurd rfl hbody

namespace Message

/-- **An upgrade keeps a message**, unless it is a block end that lists its one checksum. -/
theorem ofStructured_upgrade (h : ofStructured .v1 v = .ok m) :
    ofStructured .v2 v =
      if v.listsOneChecksum then .error .twoChecksumsShort else .ok m := by
  have hverdict := verdict_ofStructured .v1 v
  rw [h] at hverdict
  cases hverdict with
  | @message body m htagged hin hbody =>
    rw [ofStructured_of_isTagged htagged, ofTagged_of_mem (ProtocolVersion.tags_subset hin)]
    by_cases hlists : v.listsOneChecksum = true
    · rw [if_pos hlists]
      obtain ⟨item, rfl⟩ := Value.listsOneChecksum_iff.1 hlists
      obtain ⟨htag, rfl⟩ : m.tag = .blockEnd ∧ body = .array [item] := by
        generalize hname : m.tag.name = name at htagged
        cases htagged with
        | object => exact ⟨Tag.name_inj hname, rfl⟩
      rw [htag, ofBody_listed hbody htag]
      rfl
    · rw [if_neg hlists]
      have hbody' : HasBody .v2 body m := by
        refine hbody.upgrade fun item htag hlist => hlists ?_
        have hv := htagged.eq_object (by simp [hlist])
        exact Value.listsOneChecksum_iff.2 ⟨item, by rw [hv, htag, hlist]⟩
      rw [ofBody_eq_ok_iff.2 ⟨rfl, hbody'⟩]
      rfl

/-- So a segment is kept. -/
theorem ofSegment_upgrade {segment : Bytes} (h : ofSegment .v1 segment = .ok m) :
    ∃ v, Json.parse segment = .ok v ∧ ofSegment .v2 segment =
      if v.listsOneChecksum then .error ⟨segment, .twoChecksumsShort⟩ else .ok m := by
  unfold ofSegment at h ⊢
  split at h
  · cases h
  · rename_i v hparse
    refine ⟨v, hparse, ?_⟩
    have hvalue := ofStructured_upgrade (mapError_eq_ok_iff.1 h)
    rw [hvalue]
    split <;> rfl

/-- So an item is kept. -/
theorem ofItem_upgrade {item : Bytes} (h : ofItem .v1 item = .ok m) :
    ∃ v, Cbor.parse item = .ok v ∧ ofItem .v2 item =
      if v.listsOneChecksum then .error ⟨item, .twoChecksumsShort⟩ else .ok m := by
  unfold ofItem at h ⊢
  split at h
  · cases h
  · rename_i v hparse
    refine ⟨v, hparse, ?_⟩
    have hvalue := ofStructured_upgrade (mapError_eq_ok_iff.1 h)
    rw [hvalue]
    split <;> rfl

end Message

/-! ## Streams -/

namespace MessageSource

variable {s later : MessageSource} {limit : Nat}

/-- **One call of an upgraded reader** hands out the same message and leaves the source alike. If
it does not, then the message was a block end that lists its one checksum. -/
theorem next_upgrade (h : s.next .v1 limit = (.ok (some m), later)) :
    s.next .v2 limit = (.ok (some m), later) ∨
      ∃ octets, s.next .v2 limit = (.error (.decode ⟨octets, .twoChecksumsShort⟩), later) := by
  cases s with
  | frames reader =>
    simp only [MessageSource.next, nextFrame] at h ⊢
    rcases hnext : reader.next with ⟨e | _ | segment, next⟩
    · simp [hnext] at h
    · simp [hnext] at h
    · simp only [hnext, Prod.mk.injEq, map_eq_ok_iff, mapError_eq_ok_iff, Option.some.injEq,
        exists_eq_right] at h ⊢
      obtain ⟨hsegment, rfl⟩ := h
      obtain ⟨v, -, hupgrade⟩ := Message.ofSegment_upgrade hsegment
      rw [hupgrade]
      cases v.listsOneChecksum with
      | false => exact .inl ⟨rfl, rfl⟩
      | true => exact .inr ⟨segment, rfl, rfl⟩
  | items octets =>
    simp only [MessageSource.next, nextItem] at h ⊢
    rcases hawait : octets.awaitOctets with ⟨f | _ | _, ready⟩
    · simp [hawait] at h
    · simp [hawait] at h
    · simp only [hawait, Prod.mk.injEq, map_eq_ok_iff, Option.some.injEq, exists_eq_right] at h ⊢
      obtain ⟨harrival, rfl⟩ := h
      rcases hpull : Cbor.pull limit ready with ⟨arrival, item, next⟩
      cases arrival with
      | done v =>
        simp only [hpull, ofArrival, mapError_eq_ok_iff] at harrival ⊢
        rw [Message.ofStructured_upgrade harrival]
        cases v.listsOneChecksum with
        | false => exact .inl ⟨rfl, trivial⟩
        | true => exact .inr ⟨item, rfl, trivial⟩
      | failed e => simp [hpull, ofArrival] at harrival
      | fault f => simp [hpull, ofArrival] at harrival
      | excess size => simp [hpull, ofArrival] at harrival

end MessageSource

namespace MessageReader

variable {r next : MessageReader} {stop : Option MessageError}

/-- The same reader in another version. -/
def withVersion (version : ProtocolVersion) (r : MessageReader) : MessageReader :=
  { r with config := { r.config with version } }

theorem next_upgrade (hversion : r.config.version = .v1) (h : r.next = (.ok (some m), next)) :
    (r.withVersion .v2).next = (.ok (some m), next.withVersion .v2) ∨
      ∃ octets later, (r.withVersion .v2).next =
        (.error (.decode ⟨octets, .twoChecksumsShort⟩), later) ∧ later.done = true := by
  unfold MessageReader.next at h ⊢
  split at h
  · cases h
  · rename_i hdone
    rw [if_neg (show ¬ (r.withVersion .v2).done = true from hdone)]
    rw [hversion] at h
    split at h
    · rename_i message source hsource
      cases h
      obtain hsame | ⟨octets, herror⟩ := MessageSource.next_upgrade hsource
      · refine .inl ?_
        simp only [withVersion, hsame]
      · refine .inr ⟨octets, { r.withVersion .v2 with source, done := true }, ?_, rfl⟩
        simp only [withVersion, herror]
    · rename_i source hother _
      cases h
      exact absurd rfl (hother m)

/-- **An upgraded reader** yields what the reader yields and maybe more, unless it comes upon a
block end that lists its one checksum: there it stops. -/
theorem yields_upgrade (hversion : r.config.version = .v1) (h : r.Yields ms stop) :
    ∃ ms' stop', (r.withVersion .v2).Yields ms' stop' ∧
      (ms <+: ms' ∨ ms' <+: ms ∧
        ∃ octets, stop' = some (.decode ⟨octets, .twoChecksumsShort⟩)) := by
  induction ms generalizing r with
  | nil =>
    obtain ⟨ms', stop', hyields⟩ := (r.withVersion .v2).exists_yields
    exact ⟨ms', stop', hyields, .inl List.nil_prefix⟩
  | cons m ms ih =>
    obtain ⟨next, hnext, hrest⟩ := h.next_of_cons
    obtain hsame | ⟨octets, later, herror, hdone⟩ := next_upgrade hversion hnext
    · have hconfig : next.config.version = .v1 := by
        obtain ⟨m', next', hnext', -, hkept⟩ | ⟨next', hnext', -⟩ | ⟨e, next', hnext', -⟩ :=
          r.next_cases
        · rw [hnext] at hnext'
          cases hnext'
          rw [hkept, hversion]
        · simp [hnext] at hnext'
        · simp [hnext] at hnext'
      obtain ⟨ms', stop', hyields, hbegins⟩ := ih hconfig hrest
      refine ⟨m :: ms', stop', hyields.cons hsame, ?_⟩
      simpa only [List.prefix_cons_inj] using hbegins
    · exact ⟨[], _, yields_of_error herror hdone, .inr ⟨List.nil_prefix, octets, rfl⟩⟩

/-- **What an upgrade keeps.** A value, a segment or an item that the first version decodes is
decoded by the second to the same message, and the messages of a whole stream are handed out alike,
whoever wrote it. There is one exception: a block end that lists its one checksum is too short a
list for the second version, and there an upgraded reader stops. -/
theorem upgrade_keeps_messages (m : Message) (r : MessageReader) (ms : List Message)
    (stop : Option MessageError) :
    (∀ v, Message.ofStructured .v1 v = .ok m → Message.ofStructured .v2 v =
      if v.listsOneChecksum then .error .twoChecksumsShort else .ok m) ∧
    (∀ segment, Message.ofSegment .v1 segment = .ok m → ∃ v, Json.parse segment = .ok v ∧
      Message.ofSegment .v2 segment =
        if v.listsOneChecksum then .error ⟨segment, .twoChecksumsShort⟩ else .ok m) ∧
    (∀ item, Message.ofItem .v1 item = .ok m → ∃ v, Cbor.parse item = .ok v ∧
      Message.ofItem .v2 item =
        if v.listsOneChecksum then .error ⟨item, .twoChecksumsShort⟩ else .ok m) ∧
    (r.config.version = .v1 → r.Yields ms stop →
      ∃ ms' stop', (r.withVersion .v2).Yields ms' stop' ∧
        (ms <+: ms' ∨ ms' <+: ms ∧
          ∃ octets, stop' = some (.decode ⟨octets, .twoChecksumsShort⟩))) :=
  ⟨fun _ => Message.ofStructured_upgrade, fun _ => Message.ofSegment_upgrade,
    fun _ => Message.ofItem_upgrade, yields_upgrade⟩

/-- The exception is there: a list with the checksum 5 alone. -/
theorem upgrade_keeps_messages_listed :
    Message.ofStructured .v1 (.object [("BlockEnd", .array [.natural 5])]) =
        .ok (.blockEnd { crc32c := some 5 }) ∧
      Message.ofStructured .v2 (.object [("BlockEnd", .array [.natural 5])]) =
        .error .twoChecksumsShort :=
  ⟨rfl, (upgrade_keeps_messages _ (ofConfig {} ⟨[], 0⟩) [] none).1 _ rfl⟩

end MessageReader

end WarcStream
