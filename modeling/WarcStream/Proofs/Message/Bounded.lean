import WarcStream.Proofs.Cbor.Recording
import WarcStream.Proofs.Frame.Bounded
import WarcStream.Proofs.Message.Grammar
import WarcStream.Proofs.Message.Yield
/-!
# What a hostile stream can make a reader hold

Frames and items are held to the limit by different means: a frame reader looks at its
buffer before it reads on, and a reader of items records what it reads of one. Either
way, what is held is bounded by the limit and the size of one read, whatever the source
delivers, however it fails, and however often the reader is called on behind an error:
`holds_within_limit`.
-/

namespace WarcStream

open Transport

namespace Cbor

variable {b next : BufferedSource} {limit : Nat} {item : Bytes} {v : Value}

/-- An item that was read to a value is that value's, from its first octet to its last, and it has
been taken off the source. -/
theorem State.Pulled.of_done (h : State.start.Pulled limit b (.done v) item next) :
    parse item = .ok v ∧ b.Passage item none next := by
  generalize harrival : Arrival.done v = arrival at h
  cases h with
  | outcome hfinished hall hpassage =>
    refine ⟨?_, hpassage⟩
    rcases State.start.run_cases item with ⟨hunfinished, -⟩ | ⟨-, hsplit⟩
    · exact absurd hunfinished hfinished
    · -- the parser takes all of the item, so nothing is left behind the value
      have hrest : (State.start.run item).2 = [] := by simpa [hall] using hsplit
      rw [parse]
      generalize State.start.run item = outcome at harrival hrest
      obtain ⟨outcome, rest⟩ := outcome
      cases outcome with
      | done w =>
        cases harrival
        cases hrest
        rfl
      | failed | unfinished => cases harrival
  | ended | excess => cases harrival
  | @fault _ _ f _ _ =>
    rw [Arrival.ofShortfall] at harrival
    split at harrival <;> cases harrival

end Cbor

namespace MessageSource

variable {b : BufferedSource} {version : ProtocolVersion} {limit capacity : Nat} {m : Message}
variable {e : DecodeError}

/-- The source behind the next `n` calls, whatever they come to. -/
def after (version : ProtocolVersion) (limit : Nat) : Nat → MessageSource → MessageSource
  | 0, x => x
  | n + 1, x => after version limit n (x.next version limit).2

/-- **A call of a reader of items within the limit**, whatever the source brings and however the
calls before came out. -/
structure ItemsWithin (version : ProtocolVersion) (limit capacity : Nat) (b : BufferedSource) :
    Prop where
  buffer : b.Bounded capacity
  /-- The item is read through a recorder, and at each read what is recorded of it is within the
  limit. -/
  recorded : ∀ ready, b.awaitOctets = (.ok true, ready) →
    Cbor.Recorder.Reaches ⟨limit, [], ready⟩
        ⟨limit, (Cbor.pull limit ready).2.1, (Cbor.pull limit ready).2.2⟩ ∧
      ∀ t, Cbor.Recorder.Reaches ⟨limit, [], ready⟩ t →
        t.seen.length ≤ limit ∧ t.octets.buffer.length ≤ capacity
  /-- The item of a message is within the limit. -/
  message : ∀ m, (nextItem version limit b).1 = .ok (some m) →
    ∃ item, item.length ≤ limit ∧ Message.ofItem version item = .ok m ∧
      b.Passage item none (nextItem version limit b).2
  /-- So is one that is refused for what it says. -/
  decode : ∀ e, (nextItem version limit b).1 = .error (.decode e) → e.segment.length ≤ limit

/-- The recorder of an item whose first octets are at hand. -/
theorem within_start {ready : BufferedSource} (h : b.Bounded capacity)
    (hawait : b.awaitOctets = (.ok true, ready)) :
    Cbor.Recorder.Within ⟨limit, [], ready⟩ limit capacity := by
  have hready := h.awaitOctets
  rw [hawait] at hready
  exact ⟨rfl, Nat.zero_le limit, hready⟩

/-- What a call comes to when there are octets. -/
theorem nextItem_of_ready {ready : BufferedSource} (hawait : b.awaitOctets = (.ok true, ready)) :
    nextItem version limit b =
      ((ofArrival version limit (Cbor.pull limit ready).2.1 (Cbor.pull limit ready).1).map some,
        (Cbor.pull limit ready).2.2) := by
  simp only [nextItem, hawait]

/-- **One call** keeps the buffer bounded, -/
theorem bounded_nextItem (h : b.Bounded capacity) :
    (nextItem version limit b).2.Bounded capacity := by
  match hawait : b.awaitOctets with
  | (.ok true, ready) =>
    rw [nextItem_of_ready hawait]
    exact ((within_start h hawait).of_reaches (Cbor.Recorder.reaches_pull limit ready)).octets
  | (.ok false, ready) =>
    have hready := h.awaitOctets
    simp only [nextItem, hawait] at hready ⊢
    exact hready
  | (.error f, ready) =>
    have hready := h.awaitOctets
    simp only [nextItem, hawait] at hready ⊢
    exact hready

/-- A message comes of an item that was read to its value, -/
theorem ofArrival_eq_ok {item : Bytes} {arrival : Cbor.Arrival}
    (h : (ofArrival version limit item arrival).map some = .ok (some m)) :
    ∃ v, arrival = .done v ∧ Message.ofStructured version v = .ok m := by
  cases arrival with
  | done v =>
    refine ⟨v, rfl, ?_⟩
    rw [ofArrival] at h
    cases hm : Message.ofStructured version v with
    | ok m' =>
      rw [hm] at h
      cases h
      rfl
    | error reason =>
      rw [hm] at h
      cases h
  | failed | fault | excess => cases h

/-- and what is refused for what it says is the item that was read. -/
theorem segment_of_ofArrival {item : Bytes} {arrival : Cbor.Arrival}
    (h : (ofArrival version limit item arrival).map some = .error (.decode e)) :
    e.segment = item := by
  cases arrival with
  | done v =>
    rw [ofArrival] at h
    cases hm : Message.ofStructured version v with
    | ok m' =>
      rw [hm] at h
      cases h
    | error reason =>
      rw [hm] at h
      cases h
      rfl
  | failed reason =>
    cases h
    rfl
  | fault | excess => cases h

/-- What is at hand when octets have been waited for has not been handed out yet. -/
theorem passage_of_ready {ready : BufferedSource} (hcap : 0 < b.capacity)
    (hawait : b.awaitOctets = (.ok true, ready)) : b.Passage [] none ready := by
  obtain ⟨next, hnext, -, hpassage⟩ | ⟨next, hnext, -⟩ | ⟨f, next, hnext, -⟩ :=
    BufferedSource.awaitOctets_cases hcap
  · rw [hawait] at hnext
    obtain ⟨-, rfl⟩ := Prod.mk.inj hnext
    exact hpassage
  · rw [hawait] at hnext
    cases hnext
  · rw [hawait] at hnext
    cases hnext

/-- **One call** of a reader whose buffer is bounded. -/
theorem itemsWithin_of_bounded (h : b.Bounded capacity) (hcap : 0 < capacity) :
    ItemsWithin version limit capacity b := by
  have hitem {ready : BufferedSource} (hawait : b.awaitOctets = (.ok true, ready)) :
      (Cbor.pull limit ready).2.1.length ≤ limit :=
    ((within_start h hawait).of_reaches (Cbor.Recorder.reaches_pull limit ready)).length_le
  refine ⟨h, fun ready hawait => ⟨Cbor.Recorder.reaches_pull limit ready, fun t ht => ?_⟩,
    fun m hm => ?_, fun e he => ?_⟩
  · have hwithin := (within_start h hawait).of_reaches ht
    exact ⟨hwithin.length_le, hwithin.octets.length_le⟩
  · match hawait : b.awaitOctets with
    | (.ok true, ready) =>
      rw [nextItem_of_ready hawait] at hm ⊢
      obtain ⟨v, hdone, hvalue⟩ := ofArrival_eq_ok hm
      have hready := passage_of_ready (h.capacity_eq ▸ hcap) hawait
      obtain ⟨arrival, item, next, hpull, hpulled, hlen⟩ :=
        Cbor.pulled_pull limit (hready.capacity_eq ▸ h.capacity_eq ▸ hcap)
      rw [hpull] at hdone ⊢
      obtain rfl := hdone
      obtain ⟨hparse, hpassage⟩ := hpulled.of_done
      exact ⟨item, hlen, Message.ofItem_eq_ok_iff.2 ⟨v, hparse, hvalue⟩, hready.trans hpassage⟩
    | (.ok false, ready) =>
      simp only [nextItem, hawait] at hm
      cases hm
    | (.error f, ready) =>
      simp only [nextItem, hawait] at hm
      cases hm
  · match hawait : b.awaitOctets with
    | (.ok true, ready) =>
      rw [nextItem_of_ready hawait] at he
      rw [segment_of_ofArrival he]
      exact hitem hawait
    | (.ok false, ready) =>
      simp only [nextItem, hawait] at he
      cases he
    | (.error f, ready) =>
      simp only [nextItem, hawait] at he
      cases he

/-- **Any number of calls** keep the buffer bounded. -/
theorem bounded_after (h : b.Bounded capacity) (n : Nat) :
    ∃ later, after version limit n (.items b) = .items later ∧ later.Bounded capacity := by
  induction n generalizing b with
  | zero => exact ⟨b, rfl, h⟩
  | succ n ih => exact ih (bounded_nextItem h)

end MessageSource

namespace MessageReader

theorem source_taking (r : MessageReader) (answer : Except MessageError (Option Message))
    (later : MessageSource) :
    (r.taking answer later).2.config = r.config ∧ (r.taking answer later).2.source = later := by
  rcases answer with e | _ | m
  · exact ⟨rfl, rfl⟩
  · exact ⟨rfl, rfl⟩
  · exact ⟨rfl, rfl⟩

/-- A call asks the source once, or not at all when the reader has come to its end. -/
theorem source_next_cases (r : MessageReader) :
    r.next.2.config = r.config ∧
      (r.next.2.source = r.source ∨
        r.next.2.source = (r.source.next r.config.version r.config.limit).2) := by
  cases hdone : r.done with
  | true =>
    rw [MessageReader.next, if_pos hdone]
    exact ⟨rfl, .inl rfl⟩
  | false =>
    rw [next_of_source hdone rfl]
    obtain ⟨hconfig, hsource⟩ := r.source_taking _ _
    exact ⟨hconfig, .inr hsource⟩

/-- So the source of a reader is where some number of calls leave it. -/
theorem exists_source_after (r : MessageReader) (n : Nat) :
    ∃ k, (r.after n).source = r.source.after r.config.version r.config.limit k := by
  induction n generalizing r with
  | zero => exact ⟨0, rfl⟩
  | succ n ih =>
    obtain ⟨hconfig, hsource⟩ := r.source_next_cases
    obtain ⟨k, hk⟩ := ih r.next.2
    rw [hconfig] at hk
    rcases hsource with hsource | hsource
    · rw [hsource] at hk
      exact ⟨k, hk⟩
    · rw [hsource] at hk
      exact ⟨k + 1, hk⟩

/-- **Bounded memory.** Whatever a source delivers, however it cuts it and fails, and behind any
number of calls, also such as came to an error: a frame reader's buffer never holds more than the
limit and one read, each segment that it hands out is within the limit, and behind a run that is
refused while no delimiter closes it nothing more is read. A reader of items records no more of
the one in progress than the limit allows, and each item that it makes a message of, or refuses for
what it says, is within the limit. -/
theorem holds_within_limit (source : Source) (limit chunk n : Nat) :
    (∀ framing, ((FrameReader.ofConfig ⟨framing, limit, chunk⟩ source).after n).WithinLimit
      ⟨framing, limit, chunk⟩) ∧
    ∀ version,
      (∃ b, (ofConfig ⟨.cborSequence, version, limit, chunk⟩ source).source.after version limit n =
          .items b ∧ MessageSource.ItemsWithin version limit (max chunk 1) b) ∧
      ∃ k, ((ofConfig ⟨.cborSequence, version, limit, chunk⟩ source).after n).source =
        (ofConfig ⟨.cborSequence, version, limit, chunk⟩ source).source.after version limit k := by
  refine ⟨fun framing => ?_, fun version => ⟨?_, exists_source_after _ n⟩⟩
  · exact ((FrameReader.bounded_ofConfig ⟨framing, limit, chunk⟩ source).after n).withinLimit
  · have hstart : BufferedSource.Bounded ⟨max chunk 1, [], source⟩ (max chunk 1) :=
      ⟨rfl, Nat.zero_le _⟩
    obtain ⟨b, hb, hbounded⟩ := MessageSource.bounded_after hstart n
    exact ⟨b, hb, MessageSource.itemsWithin_of_bounded hbounded (Nat.le_max_right chunk 1)⟩

end MessageReader

end WarcStream
