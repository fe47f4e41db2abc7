import WarcStream.Cbor.Reader
import WarcStream.Frame.Reader
import WarcStream.Message.Format
import WarcStream.Message.Structured
/-!
# Reading messages

A message reader hands out the messages of a stream in their order. The first
error ends the stream, as its end does; nothing is read after either.
`remaining` bounds what is still to come, and every message that is handed out
lowers it (`remaining_next_lt`).
-/

namespace WarcStream

open Transport

/-- Where a message reader takes its messages from. -/
inductive MessageSource where
  /-- Frames with a JSON text each. -/
  | frames (reader : FrameReader)
  /-- CBOR items. -/
  | items (octets : BufferedSource)
  deriving Repr

namespace MessageSource

/-- The source of the octets. -/
def source : MessageSource → Source
  | .frames reader => reader.source
  | .items octets => octets.source

/-- A bound on what is still to come. -/
def remaining : MessageSource → Nat
  | .frames reader => reader.remaining
  | .items octets => octets.stock

/-- What an item that was read means. -/
def ofArrival (version : ProtocolVersion) (limit : Nat) (item : Bytes) :
    Cbor.Arrival → Except MessageError Message
  | .done v =>
    (Message.ofStructured version v).mapError fun reason => .decode ⟨item, reason⟩
  | .failed e => .error (.decode ⟨item, .cbor e⟩)
  | .fault f => .error (.ofFault f)
  | .excess size => .error (.frame (.tooLarge size limit))

/-- The message of the next frame. -/
def nextFrame (version : ProtocolVersion) (reader : FrameReader) :
    Except MessageError (Option Message) × FrameReader :=
  match reader.next with
  | (.error e, reader) => (.error (.frame e), reader)
  | (.ok none, reader) => (.ok none, reader)
  | (.ok (some segment), reader) =>
    (((Message.ofSegment version segment).mapError .decode).map some, reader)

/-- The message of the next item. -/
def nextItem (version : ProtocolVersion) (limit : Nat) (octets : BufferedSource) :
    Except MessageError (Option Message) × BufferedSource :=
  match octets.awaitOctets with
  | (.error f, octets) => (.error (.ofFault f), octets)
  | (.ok false, octets) => (.ok none, octets)
  | (.ok true, octets) =>
    let (arrival, item, octets) := Cbor.pull limit octets
    ((ofArrival version limit item arrival).map some, octets)

/-- The next message, or nothing at the end of the stream. -/
def next (version : ProtocolVersion) (limit : Nat) :
    MessageSource → Except MessageError (Option Message) × MessageSource
  | .frames reader =>
    let (answer, reader) := nextFrame version reader
    (answer, .frames reader)
  | .items octets =>
    let (answer, octets) := nextItem version limit octets
    (answer, .items octets)

/-- A message that is taken from a frame leaves less to come. -/
theorem remaining_nextFrame_lt {version : ProtocolVersion} {reader : FrameReader} {m : Message}
    (h : (nextFrame version reader).1 = .ok (some m)) :
    (nextFrame version reader).2.remaining < reader.remaining := by
  unfold nextFrame at h ⊢
  split at h
  · simp at h
  · simp at h
  · rename_i segment next hnext
    have hsegment : reader.next.1 = .ok (some segment) := by rw [hnext]
    have := FrameReader.remaining_next_lt hsegment
    simpa only [hnext] using this

/-- A message that is taken from an item leaves less to come. -/
theorem stock_nextItem_lt {version : ProtocolVersion} {limit : Nat} {octets : BufferedSource}
    {m : Message} (h : (nextItem version limit octets).1 = .ok (some m)) :
    (nextItem version limit octets).2.stock < octets.stock := by
  have hle := octets.stock_awaitOctets_le
  unfold nextItem at h ⊢
  split at h
  · simp at h
  · simp at h
  · rename_i ready hready
    simp only [hready] at h hle ⊢
    have hdone : ∃ v, (Cbor.pull limit ready).1 = .done v := by
      cases harrival : (Cbor.pull limit ready).1 <;>
        simp [harrival, ofArrival, Except.map] at h ⊢
    obtain ⟨v, hv⟩ := hdone
    exact Nat.lt_of_lt_of_le (Cbor.stock_pull_lt hv) hle

/-- A message that is handed out leaves less to come. -/
theorem remaining_next_lt {version : ProtocolVersion} {limit : Nat} {s : MessageSource}
    {m : Message} (h : (s.next version limit).1 = .ok (some m)) :
    (s.next version limit).2.remaining < s.remaining := by
  cases s with
  | frames reader => exact remaining_nextFrame_lt h
  | items octets => exact stock_nextItem_lt h

/-- What is reported while the next message is taken. -/
def nextEvents (limit : Nat) : MessageSource → List Log.Event
  | .frames reader => reader.nextEvents
  | .items octets =>
    match octets.awaitOctets with
    | (.ok true, octets) =>
      match Cbor.pull limit octets with
      | (.excess _, _, _) => []
      | (_, item, _) =>
        [{ severity := .trace, target := "warcseq_message::cbor", message := "read CBOR item"
           details := [("len", .number item.length)] }]
    | _ => []

end MessageSource

/-- A reader of messages. -/
structure MessageReader where
  config : MessageConfig
  source : MessageSource
  /-- The messages handed out so far. -/
  count : Nat := 0
  /-- The stream has ended, or an error has ended it. -/
  done : Bool := false
  deriving Repr

namespace MessageReader

/-- A reader with nothing read yet. -/
def ofConfig (config : MessageConfig) (source : Source) : MessageReader :=
  { config
    source :=
      match config.format.framing? with
      | some framing => .frames (.ofConfig (config.frames framing) source)
      | none => .items { capacity := max config.chunk 1, source } }

/-- A bound on what is still to come. -/
def remaining (r : MessageReader) : Nat := r.source.remaining

/-- Hands out the next message, or nothing at the end. -/
def next (r : MessageReader) : Except MessageError (Option Message) × MessageReader :=
  if r.done then (.ok none, r)
  else
    match r.source.next r.config.version r.config.limit with
    | (.ok (some m), source) => (.ok (some m), { r with source, count := r.count + 1 })
    | (answer, source) => (answer, { r with source, done := true })

/-- A message that is handed out leaves less to come. -/
theorem remaining_next_lt {r next : MessageReader} {m : Message}
    (h : r.next = (.ok (some m), next)) : next.remaining < r.remaining := by
  unfold MessageReader.next at h
  split at h
  · simp at h
  · split at h
    · rename_i message source hnext
      have hmessage : (r.source.next r.config.version r.config.limit).1 = .ok (some message) := by
        rw [hnext]
      have := MessageSource.remaining_next_lt hmessage
      rw [hnext] at this
      simp only [Prod.mk.injEq] at h
      obtain ⟨-, rfl⟩ := h
      exact this
    · rename_i answer source hnone hnext
      simp only [Prod.mk.injEq] at h
      obtain ⟨rfl, -⟩ := h
      exact (hnone m rfl).elim

/-- What is reported while the next message is handed out. -/
def nextEvents (r : MessageReader) : List Log.Event :=
  let target := "warcseq_message::reader"
  if r.done then []
  else
    r.source.nextEvents r.config.limit ++
      match r.next.1 with
      | .ok (some m) =>
        [{ severity := .debug, target, message := "decoded message"
           details := [("tag", .text m.tag.name), ("index", .number (r.count + 1))] }]
      | .ok none =>
        [{ severity := .debug, target, message := "message stream ended"
           details := [("messages", .number r.count)] }]
      | .error e =>
        if e.isDecode then
          [{ severity := .warn, target, message := "malformed segment"
             details := [("index", .number (r.count + 1)), ("error", .text e.message)] }]
        else []

end MessageReader

end WarcStream
