import WarcStream.Message.Codec
import WarcStream.Proofs.Message.Items
/-!
# The codec and the reader

A codec is fed a stream in chunks. `MessageCodec.run` asks it for messages until
it has none, after each chunk and once more at the end, and stops at the first
error. On a stream of items it comes to the messages that a reader of the same
octets yields, and to the same end, however the octets are cut for either of them
(`MessageReader.agrees_with_codec`).
-/

namespace WarcStream

open Transport

namespace MessageCodec

variable {version : ProtocolVersion} {limit : Nat} {buffer more octets : Bytes}
variable {c next : MessageCodec} {ended : Bool} {m : Message} {e : MessageError}

/-! ## An item in the buffer -/

/-- What is left behind an item that has come to an outcome. -/
theorem rest_eq_behindItem (buffer : Bytes)
    (h : (Cbor.State.start.run buffer).1 ≠ .unfinished) :
    (Cbor.State.start.run buffer).2 = behindItem buffer := by
  rcases Cbor.State.start.run_cases buffer with ⟨hunfinished, -⟩ | ⟨-, hsplit⟩
  · exact absurd hunfinished h
  · exact List.append_cancel_left (hsplit.trans (itemAt_append_behindItem buffer).symm)

theorem take_behindItem (buffer : Bytes) :
    buffer.take (buffer.length - (behindItem buffer).length) = itemAt buffer := by
  have hsplit := itemAt_append_behindItem buffer
  have hlen : buffer.length - (behindItem buffer).length = (itemAt buffer).length := by
    have hsum := congrArg List.length hsplit
    rw [List.length_append] at hsum
    omega
  rw [hlen]
  exact (List.prefix_iff_eq_take.1 ⟨_, hsplit⟩).symm

/-- **All that a codec can make of its buffer**: it waits for more, unless there is too much
already, or it takes the item at the front. -/
theorem nextItem_cases (version : ProtocolVersion) (limit : Nat) (buffer : Bytes) :
    ((Cbor.State.start.run buffer).1 = .unfinished ∧
      (limit < buffer.length ∧ nextItem version limit buffer =
          (.error (.frame (.tooLarge buffer.length limit)), buffer) ∨
        buffer.length ≤ limit ∧ nextItem version limit buffer = (.ok none, buffer))) ∨
    ((Cbor.State.start.run buffer).1 ≠ .unfinished ∧
      (limit < (itemAt buffer).length ∧ nextItem version limit buffer =
          (.error (.frame (.tooLarge (itemAt buffer).length limit)), behindItem buffer) ∨
        (itemAt buffer).length ≤ limit ∧ nextItem version limit buffer =
          (((Message.atFront version buffer).mapError fun reason =>
            .decode ⟨itemAt buffer, reason⟩).map some, behindItem buffer))) := by
  by_cases hnone : buffer = []
  · subst hnone
    refine .inl ⟨by rw [Cbor.State.run_nil], .inr ⟨Nat.zero_le limit, ?_⟩⟩
    rw [nextItem, if_pos List.isEmpty_nil]
  have hsome : ¬ buffer.isEmpty = true := by simpa using hnone
  have hrest := rest_eq_behindItem buffer
  unfold nextItem Message.atFront
  rw [if_neg hsome]
  generalize Cbor.State.start.run buffer = answer at hrest ⊢
  obtain ⟨outcome, rest⟩ := answer
  cases outcome with
  | unfinished =>
    refine .inl ⟨rfl, ?_⟩
    by_cases hlarge : limit < buffer.length
    · exact .inl ⟨hlarge, if_pos hlarge⟩
    · exact .inr ⟨Nat.le_of_not_lt hlarge, if_neg hlarge⟩
  | done v =>
    obtain rfl : rest = behindItem buffer := hrest (by simp)
    refine .inr ⟨by simp, ?_⟩
    simp only [take_behindItem]
    by_cases hlarge : limit < (itemAt buffer).length
    · exact .inl ⟨hlarge, if_pos hlarge⟩
    · exact .inr ⟨Nat.le_of_not_lt hlarge, if_neg hlarge⟩
  | failed error =>
    obtain rfl : rest = behindItem buffer := hrest (by simp)
    refine .inr ⟨by simp, ?_⟩
    simp only [take_behindItem]
    by_cases hlarge : limit < (itemAt buffer).length
    · exact .inl ⟨hlarge, if_pos hlarge⟩
    · exact .inr ⟨Nat.le_of_not_lt hlarge, if_neg hlarge⟩

theorem lastItem_of_none {rest : Bytes} (h : nextItem version limit buffer = (.ok none, rest)) :
    lastItem version limit buffer =
      if rest.isEmpty then (.ok none, rest)
      else (.error (.decode ⟨rest, .cbor .truncated⟩), []) := by
  rw [lastItem, h]

theorem lastItem_of_some {rest : Bytes} (h : nextItem version limit buffer = (.ok (some m), rest)) :
    lastItem version limit buffer = (.ok (some m), rest) := by
  rw [lastItem, h]

theorem lastItem_of_error {rest : Bytes} (h : nextItem version limit buffer = (.error e, rest)) :
    lastItem version limit buffer = (.error e, rest) := by
  rw [lastItem, h]

/-! ## A run of a codec -/

/-- The next message, before the end of the stream or at it. -/
def attempt (c : MessageCodec) (ended : Bool) :
    Except MessageError (Option Message) × MessageCodec :=
  if ended then c.decodeEnd else c.decode

/-- A message that is read from the front of the buffer leaves it. -/
theorem length_nextItem_lt (h : (nextItem version limit buffer).1 = .ok (some m)) :
    (nextItem version limit buffer).2.length < buffer.length := by
  rcases nextItem_cases version limit buffer with
    ⟨-, ⟨-, hitem⟩ | ⟨-, hitem⟩⟩ | ⟨hrun, ⟨-, hitem⟩ | ⟨-, hitem⟩⟩
  · rw [hitem] at h
    cases h
  · rw [hitem] at h
    cases h
  · rw [hitem] at h
    cases h
  · rw [hitem]
    refine length_behindItem_lt ?_
    rintro rfl
    rw [Cbor.State.run_nil] at hrun
    exact hrun rfl

theorem length_lastItem_lt (h : (lastItem version limit buffer).1 = .ok (some m)) :
    (lastItem version limit buffer).2.length < buffer.length := by
  cases hitem : nextItem version limit buffer with
  | mk answer rest =>
    match answer with
    | .error e =>
      rw [lastItem_of_error hitem] at h
      cases h
    | .ok none =>
      rw [lastItem_of_none hitem] at h
      split at h
      · cases h
      · cases h
    | .ok (some m') =>
      have hless := length_nextItem_lt (m := m') (by rw [hitem])
      rw [hitem] at hless
      rwa [lastItem_of_some hitem]

/-- A message that is handed out leaves the buffer. -/
theorem buffered_attempt_lt (h : (c.attempt ended).1 = .ok (some m)) :
    (c.attempt ended).2.buffered < c.buffered := by
  have hcut {answer : Except FrameError (Option Bytes)}
      (h : ofCut c.config.version answer = .ok (some m)) :
      ∃ segment, answer = .ok (some segment) := by
    match answer with
    | .error e => cases h
    | .ok none => cases h
    | .ok (some segment) => exact ⟨segment, rfl⟩
  unfold attempt at h ⊢
  cases ended with
  | true =>
    simp only [if_true] at h ⊢
    unfold decodeEnd at h ⊢
    split at h
    · rename_i hformat
      exact length_lastItem_lt h
    · obtain ⟨segment, hsegment⟩ := hcut h
      exact Segmenter.length_last_lt hsegment
    · obtain ⟨segment, hsegment⟩ := hcut h
      exact Segmenter.length_last_lt hsegment
  | false =>
    simp only [Bool.false_eq_true, if_false] at h ⊢
    unfold decode at h ⊢
    split at h
    · exact length_nextItem_lt h
    · obtain ⟨segment, hsegment⟩ := hcut h
      exact Segmenter.length_next_lt hsegment
    · obtain ⟨segment, hsegment⟩ := hcut h
      exact Segmenter.length_next_lt hsegment

/-- The messages that a codec hands out until it has none at hand, up to the first error. -/
def drain (c : MessageCodec) (ended : Bool) : List Message × Option MessageError × MessageCodec :=
  match _h : c.attempt ended with
  | (.error e, next) => ([], some e, next)
  | (.ok none, next) => ([], none, next)
  | (.ok (some m), next) =>
    let (ms, stop, last) := next.drain ended
    (m :: ms, stop, last)
termination_by c.buffered
decreasing_by
  have hless : (c.attempt ended).2.buffered < c.buffered := buffered_attempt_lt (by rw [_h])
  rwa [_h] at hless

/-- The messages that a codec hands out when it is fed a stream in chunks, up to the first error. -/
def run (c : MessageCodec) : List Bytes → List Message × Option MessageError
  | [] =>
    let (ms, stop, _) := c.drain true
    (ms, stop)
  | chunk :: rest =>
    match (c.feed chunk).drain false with
    | (ms, some e, _) => (ms, some e)
    | (ms, none, next) =>
      let (later, stop) := next.run rest
      (ms ++ later, stop)

/-- The equation of draining. -/
theorem drain_eq (c : MessageCodec) (ended : Bool) :
    c.drain ended =
      match c.attempt ended with
      | (.error e, next) => ([], some e, next)
      | (.ok none, next) => ([], none, next)
      | (.ok (some m), next) => (m :: (next.drain ended).1, (next.drain ended).2) := by
  rw [drain]
  generalize c.attempt ended = answer
  obtain ⟨e | found, next⟩ := answer
  · rfl
  · cases found with
    | none => rfl
    | some m => rfl

theorem drain_of_none (h : c.attempt ended = (.ok none, next)) :
    c.drain ended = ([], none, next) := by
  rw [drain_eq, h]

theorem drain_of_error (h : c.attempt ended = (.error e, next)) :
    c.drain ended = ([], some e, next) := by
  rw [drain_eq, h]

theorem drain_of_message {ms : List Message} {stop : Option MessageError} {last : MessageCodec}
    (h : c.attempt ended = (.ok (some m), next)) (hnext : next.drain ended = (ms, stop, last)) :
    c.drain ended = (m :: ms, stop, last) := by
  rw [drain_eq, h]
  simp only [hnext]

/-! ## A run on a stream of items -/

/-- An item that has come to an outcome in the buffer is the one at the front of the stream. -/
theorem front_append (version : ProtocolVersion) (more : Bytes)
    (h : (Cbor.State.start.run buffer).1 ≠ .unfinished) :
    itemAt (buffer ++ more) = itemAt buffer ∧
      behindItem (buffer ++ more) = behindItem buffer ++ more ∧
      Message.atFront version (buffer ++ more) = Message.atFront version buffer := by
  obtain ⟨hrun, hfront⟩ := Cbor.State.run_append more h
  refine ⟨hfront, ?_, ?_⟩
  · have hsplit := itemAt_append_behindItem (buffer ++ more)
    rw [show itemAt (buffer ++ more) = itemAt buffer from hfront] at hsplit
    refine List.append_cancel_left (hsplit.trans ?_)
    rw [← List.append_assoc, itemAt_append_behindItem]
  · simp only [Message.atFront, hrun]

/-- **What a codec makes of its buffer** is what the stream comes to, whatever is still to come of
it: it waits, or it stops where reading the stream stops, or it takes the next message. -/
theorem nextItem_stream (version : ProtocolVersion) (limit : Nat) (buffer more : Bytes) :
    ((Cbor.State.start.run buffer).1 = .unfinished ∧ buffer.length ≤ limit ∧
      nextItem version limit buffer = (.ok none, buffer)) ∨
    (∃ e rest, nextItem version limit buffer = (.error e, rest) ∧
      Stops version limit (buffer ++ more) (some e)) ∨
    ∃ m, nextItem version limit buffer = (.ok (some m), behindItem buffer) ∧
      (itemAt (buffer ++ more)).length ≤ limit ∧
      Message.atFront version (buffer ++ more) = .ok m ∧
      behindItem (buffer ++ more) = behindItem buffer ++ more := by
  rcases nextItem_cases version limit buffer with
    ⟨hrun, ⟨hlarge, hitem⟩ | ⟨hlimit, hitem⟩⟩ | ⟨hrun, ⟨hlarge, hitem⟩ | ⟨hlimit, hitem⟩⟩
  · -- the item that is waited for takes at least what is there
    have hmore : buffer.length ≤ (itemAt (buffer ++ more)).length :=
      Cbor.State.length_le_front more hrun
    exact .inr (.inl ⟨_, _, hitem, .tooLarge (by omega) hlarge⟩)
  · exact .inl ⟨hrun, hlimit, hitem⟩
  · obtain ⟨hfront, -, -⟩ := front_append version more hrun
    exact .inr (.inl ⟨_, _, hitem, .tooLarge (by rwa [hfront]) hlarge⟩)
  · obtain ⟨hfront, hbehind, hmeans⟩ := front_append version more hrun
    cases hread : Message.atFront version buffer with
    | error reason =>
      rw [hread] at hitem
      refine .inr (.inl ⟨_, _, hitem, ?_⟩)
      rw [← hfront]
      refine .malformed ?_ (by rwa [hfront]) (hmeans.trans hread)
      intro hnil
      obtain ⟨rfl, -⟩ := List.append_eq_nil_iff.1 hnil
      rw [Cbor.State.run_nil] at hrun
      exact hrun rfl
    | ok m =>
      rw [hread] at hitem
      exact .inr (.inr ⟨m, hitem, by rwa [hfront], hmeans.trans hread, hbehind⟩)

section Items

variable (hformat : c.config.format = .cborSequence)

include hformat

theorem attempt_false {answer : Except MessageError (Option Message)} {rest : Bytes}
    (h : nextItem c.config.version c.config.limit buffer = (answer, rest)) :
    (c.withBuffer buffer).attempt false = (answer, c.withBuffer rest) := by
  have hbuffer : (c.withBuffer buffer).config.format = .cborSequence := hformat
  have hitem : nextItem (c.withBuffer buffer).config.version (c.withBuffer buffer).config.limit
      (c.withBuffer buffer).segmenter.buffer = (answer, rest) := h
  simp only [attempt, Bool.false_eq_true, if_false, decode, hbuffer, hitem]
  rfl

theorem attempt_true {answer : Except MessageError (Option Message)} {rest : Bytes}
    (h : lastItem c.config.version c.config.limit buffer = (answer, rest)) :
    (c.withBuffer buffer).attempt true = (answer, c.withBuffer rest) := by
  have hbuffer : (c.withBuffer buffer).config.format = .cborSequence := hformat
  have hitem : lastItem (c.withBuffer buffer).config.version (c.withBuffer buffer).config.limit
      (c.withBuffer buffer).segmenter.buffer = (answer, rest) := h
  simp only [attempt, if_true, decodeEnd, hbuffer, hitem]
  rfl

/-- **Before the end of the stream**, a codec hands out messages from the front of the stream, up to
an item that is not all there or to the error where reading stops. -/
theorem drain_false (buffer more : Bytes) :
    ∃ items,
      (∃ waiting, Splits c.config.version c.config.limit (buffer ++ more) items (waiting ++ more) ∧
        (c.withBuffer buffer).drain false =
          (items.map Prod.snd, none, c.withBuffer waiting)) ∨
      ∃ rest e next, Splits c.config.version c.config.limit (buffer ++ more) items rest ∧
        Stops c.config.version c.config.limit rest (some e) ∧
        (c.withBuffer buffer).drain false = (items.map Prod.snd, some e, next) := by
  -- along the messages, each of which leaves fewer octets in the buffer
  induction hn : buffer.length using Nat.strongRecOn generalizing buffer with
  | _ n ih =>
    rcases nextItem_stream c.config.version c.config.limit buffer more with
      ⟨-, -, hitem⟩ | ⟨e, rest, hitem, hstops⟩ | ⟨m, hitem, hlimit, hm, hbehind⟩
    · have hattempt := attempt_false hformat hitem
      exact ⟨[], .inl ⟨buffer, .nil _, drain_of_none hattempt⟩⟩
    · have hattempt := attempt_false hformat hitem
      exact ⟨[], .inr ⟨_, e, _, .nil _, hstops, drain_of_error hattempt⟩⟩
    · have hattempt := attempt_false hformat hitem
      have hless := length_nextItem_lt (m := m) (by rw [hitem])
      rw [hitem] at hless
      obtain ⟨items, hdrain⟩ := ih _ (hn ▸ hless) (behindItem buffer) rfl
      refine ⟨(itemAt (buffer ++ more), m) :: items, ?_⟩
      rcases hdrain with ⟨waiting, hsplits, hdrain⟩ | ⟨rest, e, next, hsplits, hstops, hdrain⟩
      · rw [← hbehind] at hsplits
        exact .inl ⟨waiting, .cons hlimit hm hsplits, drain_of_message hattempt hdrain⟩
      · rw [← hbehind] at hsplits
        exact .inr ⟨rest, e, next, .cons hlimit hm hsplits, hstops,
          drain_of_message hattempt hdrain⟩

/-- **At the end of the stream**, a codec hands out the messages that are left, and stops where
reading stops. -/
theorem drain_true (buffer : Bytes) :
    ∃ items rest stop next, Splits c.config.version c.config.limit buffer items rest ∧
      Stops c.config.version c.config.limit rest stop ∧
      (c.withBuffer buffer).drain true = (items.map Prod.snd, stop, next) := by
  induction hn : buffer.length using Nat.strongRecOn generalizing buffer with
  | _ n ih =>
    rcases nextItem_stream c.config.version c.config.limit buffer [] with
      ⟨hrun, hlimit, hitem⟩ | ⟨e, rest, hitem, hstops⟩ | ⟨m, hitem, hlimit, hm, -⟩
    · have hlast := lastItem_of_none hitem
      by_cases hnone : buffer = []
      · subst hnone
        have hattempt := attempt_true hformat hlast
        exact ⟨[], [], none, _, .nil _, .ended, drain_of_none hattempt⟩
      · -- what is left of an item is cut short
        have hall : itemAt buffer = buffer := by
          rcases Cbor.State.start.run_cases buffer with ⟨-, hall⟩ | ⟨hfinished, -⟩
          · exact hall
          · exact absurd hrun hfinished
        have hcut : Message.atFront c.config.version buffer = .error (.cbor .truncated) := by
          rw [Message.atFront, hrun]
        have hstops : Stops c.config.version c.config.limit buffer _ :=
          .malformed hnone (by rwa [hall]) hcut
        rw [hall] at hstops
        rw [if_neg (by simpa using hnone)] at hlast
        have hattempt := attempt_true hformat hlast
        exact ⟨[], buffer, _, _, .nil _, hstops, drain_of_error hattempt⟩
    · have hattempt := attempt_true hformat (lastItem_of_error hitem)
      rw [List.append_nil] at hstops
      exact ⟨[], buffer, _, _, .nil _, hstops, drain_of_error hattempt⟩
    · have hattempt := attempt_true hformat (lastItem_of_some hitem)
      have hless := length_nextItem_lt (m := m) (by rw [hitem])
      rw [hitem] at hless
      rw [List.append_nil] at hlimit hm
      obtain ⟨items, rest, stop, next, hsplits, hstops, hdrain⟩ :=
        ih _ (hn ▸ hless) (behindItem buffer) rfl
      exact ⟨(itemAt buffer, m) :: items, rest, stop, next, .cons hlimit hm hsplits, hstops,
        drain_of_message hattempt hdrain⟩

/-- **A codec that is fed a stream** hands out the messages at its front, and stops behind them. -/
theorem run_withBuffer (buffer : Bytes) (chunks : List Bytes) :
    ∃ items rest stop,
      Splits c.config.version c.config.limit (buffer ++ chunks.flatten) items rest ∧
      Stops c.config.version c.config.limit rest stop ∧
      (c.withBuffer buffer).run chunks = (items.map Prod.snd, stop) := by
  induction chunks generalizing buffer with
  | nil =>
    obtain ⟨items, rest, stop, next, hsplits, hstops, hdrain⟩ := drain_true hformat buffer
    refine ⟨items, rest, stop, ?_, hstops, ?_⟩
    · rwa [List.flatten_nil, List.append_nil]
    · rw [run, hdrain]
  | cons chunk chunks ih =>
    rw [List.flatten_cons, ← List.append_assoc]
    obtain ⟨items, ⟨waiting, hsplits, hdrain⟩ | ⟨rest, e, next, hsplits, hstops, hdrain⟩⟩ :=
      drain_false hformat (buffer ++ chunk) chunks.flatten
    · obtain ⟨items', rest, stop, hsplits', hstops, hrun⟩ := ih waiting
      refine ⟨items ++ items', rest, stop, hsplits.trans hsplits', hstops, ?_⟩
      rw [run, show (c.withBuffer buffer).feed chunk = c.withBuffer (buffer ++ chunk) from rfl,
        hdrain]
      simp only [hrun, List.map_append]
    · refine ⟨items, rest, some e, hsplits, hstops, ?_⟩
      rw [run, show (c.withBuffer buffer).feed chunk = c.withBuffer (buffer ++ chunk) from rfl,
        hdrain]

end Items

end MessageCodec

namespace MessageReader

/-- **The blocking and the buffered reader agree.** A stream of items is delivered to a reader in
any pieces, with interruptions anywhere, and fed to a codec in any chunks. Both hand out the
messages at its front, in their order, and stop behind them for the same reason: with an error in
the same octets, at an item over the limit, or at the end. They stop at an item over the limit just
if the parser takes more octets of it than the limit allows. -/
theorem agrees_with_codec (c : MessageConfig) (chunks : List Bytes) (s : Source)
    (hformat : c.format = .cborSequence) (hs : s.Delivers chunks.flatten) :
    ∃ items rest stop stop',
      chunks.flatten = items.flatMap Prod.fst ++ rest ∧
      Splits c.version c.limit chunks.flatten items rest ∧
      (ofConfig c s).Yields (items.map Prod.snd) stop ∧
      (MessageCodec.ofConfig c).run chunks = (items.map Prod.snd, stop') ∧
      Stops c.version c.limit rest stop ∧ Alike stop stop' ∧
      ((∃ size, stop = some (.frame (.tooLarge size c.limit))) ↔
        c.limit < (itemAt rest).length) := by
  have hsource : (ofConfig c s).source = .items { capacity := max c.chunk 1, source := s } := by
    simp only [ofConfig, hformat, StreamFormat.framing?]
  obtain ⟨items, rest, stop, hsplits, hstops, hyields⟩ :=
    yields_items (r := ofConfig c s) rfl hsource
      (BufferedSource.delivers_of_source (Nat.le_max_right c.chunk 1) hs)
  obtain ⟨items', rest', stop', hsplits', hstops', hrun⟩ :=
    MessageCodec.run_withBuffer (c := MessageCodec.ofConfig c) hformat [] chunks
  rw [List.nil_append] at hsplits'
  obtain ⟨rfl, rfl⟩ := hsplits.unique hstops hsplits' hstops'
  exact ⟨items, rest, stop, stop', hsplits.eq_append, hsplits, hyields, hrun, hstops,
    hstops.alike hstops', hstops.tooLarge_iff⟩

/-- A reader of short items that asks for three octets at a time. -/
def shortItems : MessageConfig := { format := .cborSequence, limit := 12, chunk := 3 }

/-- The bare name of the end of the file, and the first octet of another text. -/
def cutItems : List Bytes := [[0x69, 0x45], [0x6e, 0x64, 0x4f, 0x66, 0x46, 0x69, 0x6c, 0x65, 0x61]]

/-- A source of these octets that is interrupted between them. -/
def interruptedSource : Source :=
  { script := [.data [0x69, 0x45, 0x6e, 0x64], .fault (.plain .interrupted),
      .data [0x4f, 0x66, 0x46, 0x69, 0x6c, 0x65, 0x61]] }

theorem delivers_interruptedSource : interruptedSource.Delivers cutItems.flatten := by
  constructor
  · simp [interruptedSource, Delivery.IsQuiet, Fault.isInterruption, Fault.kind]
  · rfl

/-- The message is handed out, and the octet behind it is an item cut short. -/
theorem agrees_with_codec_cutItems :
    (shortItems.format = .cborSequence ∧ interruptedSource.Delivers cutItems.flatten) ∧
      ∃ stop, (ofConfig shortItems interruptedSource).Yields [.endOfFile] stop ∧
        Alike stop (some (.decode ⟨[0x61], .cbor .truncated⟩)) := by
  refine ⟨⟨rfl, delivers_interruptedSource⟩, ?_⟩
  obtain ⟨items, rest, stop, stop', -, -, hyields, hrun, -, halike, -⟩ :=
    agrees_with_codec shortItems cutItems interruptedSource rfl delivers_interruptedSource
  have hcodec : (MessageCodec.ofConfig shortItems).run cutItems =
      ([.endOfFile], some (.decode ⟨[0x61], .cbor .truncated⟩)) := by
    decide +kernel
  rw [hcodec] at hrun
  obtain ⟨hitems, rfl⟩ := Prod.mk.inj hrun
  rw [← hitems] at hyields
  exact ⟨stop, hyields, halike⟩

end MessageReader

end WarcStream
