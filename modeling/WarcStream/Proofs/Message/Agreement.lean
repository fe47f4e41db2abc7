import WarcStream.Proofs.Frame.Agreement
import WarcStream.Proofs.Message.Buffered
import WarcStream.Proofs.Message.Stopping
/-!
# Message readers whose sources agree at first

`MessageConfig.Settles` says which octets a reader needs for so many messages:
those that close as many segments, or as many items. `Agrees n` relates readers
of two streams that start with octets that settle `n` messages, and one call
answers both alike (`Agrees.next`). In frames the sources must cut these octets
alike, since a blank run over the limit is refused in pieces and dropped as a
whole; items are the same however they are cut.
-/

namespace WarcStream

open Transport Bytes

variable {version : ProtocolVersion} {limit n : Nat} {p more : Bytes} {m : Message}

/-- **The octets settle `n` messages**, or an error before them: they close `n` segments that are
not blank, or start with `n` items that are messages. -/
def MessageConfig.Settles (c : MessageConfig) (p : Bytes) (n : Nat) : Prop :=
  match c.format.framing? with
  | some framing => n ≤ (solid (closedRuns framing.delimiter p)).length
  | none => ∃ items rest, Splits c.version c.limit p items rest ∧ n ≤ items.length

/-- An item that is a message is whole, and what is behind it makes no difference. -/
theorem atFront_append (h : Message.atFront version p = .ok m) (more : Bytes) :
    itemAt (p ++ more) = itemAt p ∧ behindItem (p ++ more) = behindItem p ++ more ∧
      Message.atFront version (p ++ more) = .ok m := by
  have hfinished : (Cbor.State.start.run p).1 ≠ .unfinished := by
    intro hunfinished
    rw [Message.atFront, hunfinished] at h
    cases h
  rw [← h]
  exact MessageCodec.front_append version more hfinished

/-- A reader of items takes the message at the front, and goes on behind it. -/
theorem MessageSource.nextItem_of_atFront {b : BufferedSource} (hb : b.Delivers (p ++ more))
    (hlimit : (itemAt p).length ≤ limit) (h : Message.atFront version p = .ok m) :
    ∃ later, nextItem version limit b = (.ok (some m), later) ∧
      later.Delivers (behindItem p ++ more) := by
  obtain ⟨hitem, hbehind, hmessage⟩ := atFront_append h more
  rcases nextItem_cases version limit hb with
    ⟨hnone, -⟩ | ⟨hlarge, -⟩ | ⟨-, -, later, hlater, hnext⟩
  · exact absurd hnone (ne_nil_of_atFront hmessage)
  · rw [hitem] at hlarge
    omega
  · rw [hmessage] at hnext
    rw [hbehind] at hlater
    exact ⟨later, hnext, hlater⟩

/-- A source that is not at its end delivers octets that it starts with, and others behind them. -/
theorem Transport.Source.Readable.delivers_append {s : Source} {octets : Bytes}
    (h : s.Readable octets) (hlive : s.live ≠ []) (hstarts : p <+: octetsOf s.script) :
    ∃ more, s.Delivers (p ++ more) := by
  rcases h with hs | ⟨hnone, -⟩
  · obtain ⟨more, hmore⟩ := hstarts
    exact ⟨more, hs.quiet, hmore.symm⟩
  · exact absurd hnone hlive

/-- A segment that is a message was handed out as a segment. -/
theorem MessageSource.exists_segment {answer : Except FrameError (Option Bytes)}
    (h : ofFrame version answer = .ok (some m)) : ∃ segment, answer = .ok (some segment) := by
  rcases answer with e | _ | segment
  · cases h
  · cases h
  · exact ⟨segment, rfl⟩

namespace MessageReader

variable {r r' : MessageReader}

/-- **The readers agree on `n` messages** at least, or up to an error before them. -/
inductive Agrees (n : Nat) : MessageReader → MessageReader → Prop
  /-- Their frame readers agree on as many segments. -/
  | frames {r : MessageReader} {reader reader' : FrameReader} :
      r.done = false → r.source = .frames reader → reader.Agrees n reader' →
      Agrees n r { r with source := .frames reader' }
  /-- Both streams start with octets that start with as many items. -/
  | items {r : MessageReader} {b b' : BufferedSource} {p more more' rest : Bytes}
      {found : List (Bytes × Message)} :
      r.done = false → r.source = .items b → b.Delivers (p ++ more) → b'.Delivers (p ++ more') →
      Splits r.config.version r.config.limit p found rest → n ≤ found.length →
      Agrees n r { r with source := .items b' }

/-- **One call.** Readers that agree on a message answer alike, and a message that is handed out
leaves them agreed on those behind it. -/
theorem Agrees.next (h : Agrees (n + 1) r r') :
    r.next.1 = r'.next.1 ∧ ∀ m, r.next.1 = .ok (some m) → Agrees n r.next.2 r'.next.2 := by
  cases h with
  | @frames reader reader' hdone hsource hagrees =>
    obtain ⟨hanswer, hlater⟩ := hagrees.next
    have hleft := next_of_frame hdone hsource (MessageSource.nextFrame_eq _ _)
    have hright := next_of_frame (r := { r with source := .frames reader' }) hdone rfl
      (MessageSource.nextFrame_eq _ _)
    rw [← hanswer] at hright
    rw [hleft, hright]
    match hmessage : MessageSource.ofFrame r.config.version reader.next.1 with
    | .ok (some m) =>
      obtain ⟨segment, hsegment⟩ := MessageSource.exists_segment hmessage
      exact ⟨rfl, fun _ _ => .frames (r := { r with
        source := .frames reader.next.2
        count := r.count + 1 }) hdone rfl (hlater segment hsegment)⟩
    | .ok none => exact ⟨rfl, nofun⟩
    | .error e => exact ⟨rfl, nofun⟩
  | @items b b' p more more' rest found hdone hsource hb hb' hsplits hcount =>
    cases hsplits with
    | nil => exact absurd hcount (Nat.not_succ_le_zero n)
    | @cons _ _ found m hlimit hmessage hbehind =>
      obtain ⟨later, hitem, hlater⟩ := MessageSource.nextItem_of_atFront hb hlimit hmessage
      obtain ⟨later', hitem', hlater'⟩ := MessageSource.nextItem_of_atFront hb' hlimit hmessage
      rw [next_of_item hdone hsource hitem,
        next_of_item (r := { r with source := .items b' }) hdone rfl hitem']
      exact ⟨rfl, fun _ _ => .items (r := { r with
        source := .items later
        count := r.count + 1 }) hdone rfl hlater hlater' hbehind (Nat.le_of_succ_le_succ hcount)⟩

/-- Readers with nothing read agree on the messages that the octets settle on which their sources
agree. -/
theorem agrees_ofConfig {c : MessageConfig} {s s' : Source} {octets octets' : Bytes}
    (hs : s.Readable octets) (hs' : s'.Readable octets') (hagrees : Source.Agrees p s s')
    (hsettles : c.Settles p (n + 1)) : Agrees (n + 1) (ofConfig c s) (ofConfig c s') := by
  cases hframing : c.format.framing? with
  | some framing =>
    rw [MessageConfig.Settles, hframing] at hsettles
    have hsource' := source_of_framing hframing s'
    have hreader : ofConfig c s' =
        { ofConfig c s with source := .frames (.ofConfig (c.frames framing) s') } := by
      rw [← hsource']
      rfl
    rw [hreader]
    exact .frames rfl (source_of_framing hframing s)
      (FrameReader.agrees_ofConfig hagrees hsettles)
  | none =>
    rw [MessageConfig.Settles, hframing] at hsettles
    obtain ⟨found, rest, hsplits, hcount⟩ := hsettles
    have hp : p ≠ [] := by
      cases hsplits with
      | nil => exact absurd hcount (Nat.not_succ_le_zero n)
      | cons _ hmessage _ => exact ne_nil_of_atFront hmessage
    obtain ⟨hlive, hlive'⟩ := hagrees.live_ne_nil hp
    obtain ⟨more, hdelivers⟩ := hs.delivers_append hlive hagrees.starts.1
    obtain ⟨more', hdelivers'⟩ := hs'.delivers_append hlive' hagrees.starts.2
    have hsource' := source_of_items hframing s'
    have hreader : ofConfig c s' = { ofConfig c s with
        source := .items { capacity := max c.chunk 1, source := s' } } := by
      rw [← hsource']
      rfl
    have hcapacity : 0 < max c.chunk 1 := Nat.le_max_right c.chunk 1
    rw [hreader]
    exact .items rfl (source_of_items hframing s) (BufferedSource.delivers_of_source hcapacity hdelivers)
      (BufferedSource.delivers_of_source hcapacity hdelivers') hsplits hcount

end MessageReader

end WarcStream
