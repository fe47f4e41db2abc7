import WarcStream.Proofs.Message.Buffered
import WarcStream.Proofs.Message.Grammar
/-!
# Items delimit themselves

Where an item ends is written in the item. A buffer that starts with the item of
a message gives the message and is left with what is behind it, whatever that is;
a buffer that holds only a part of the item is left as it is. The octets that a
codec takes for a message are therefore an item of the message on their own
(`MessageCodec.items_delimit`), and no item is a part of another.
-/

namespace WarcStream.MessageCodec

variable {version : ProtocolVersion} {limit : Nat} {buffer item part rest later more : Bytes}
variable {m : Message} {v : Value}

/-- The octets are one item of the message, and a buffer tells where they end. -/
structure Delimits (version : ProtocolVersion) (limit : Nat) (item : Bytes) (m : Message) :
    Prop where
  /-- They are an item of the message on their own. -/
  means : Message.ofItem version item = .ok m
  /-- Whatever comes behind them is left. -/
  exact : ∀ later, nextItem version limit (item ++ later) = (.ok (some m), later)
  /-- A part of them is waited on, and left as it is. -/
  waits : ∀ part more, part ++ more = item → part ≠ [] → more ≠ [] →
    nextItem version limit part = (.ok none, part)
  /-- A part of them is no item. -/
  cut : ∀ part more, part ++ more = item → part ≠ [] → more ≠ [] →
    ∃ e, Message.ofItem version part = .error ⟨part, .cbor e⟩ ∧ e.message = "truncated data item"

/-- A whole item within the limit is taken, whatever is behind it. -/
theorem nextItem_of_reads (hreads : Cbor.Reads (.more .start) item (.done v))
    (hm : Message.ofStructured version v = .ok m) (hlimit : item.length ≤ limit) (later : Bytes) :
    nextItem version limit (item ++ later) = (.ok (some m), later) := by
  obtain ⟨hrun, hfront⟩ := hreads.run_eq later
  have hitem : itemAt (item ++ later) = item := hfront
  have hmessage : Message.atFront version (item ++ later) = .ok m := by
    rw [Message.atFront, hrun]
    exact hm
  rcases nextItem_cases version limit (item ++ later) with
    ⟨hunfinished, -⟩ | ⟨-, ⟨hlarge, -⟩ | ⟨-, hnext⟩⟩
  · rw [hrun] at hunfinished
    cases hunfinished
  · rw [hitem] at hlarge
    omega
  · have hbehind : behindItem (item ++ later) = later := by
      rw [behindItem, hitem, List.drop_left]
    rw [hnext, hmessage, hbehind]
    rfl

/-- A part of an item is waited on as long as it is within the limit. -/
theorem nextItem_of_part (hreads : Cbor.Reads (.more .start) (part ++ more) (.done v))
    (hmore : more ≠ []) (hlimit : part.length ≤ limit) :
    nextItem version limit part = (.ok none, part) := by
  obtain ⟨hunfinished, -⟩ := hreads.run_of_cut hmore
  rcases nextItem_cases version limit part with ⟨-, ⟨hlarge, -⟩ | ⟨-, hnext⟩⟩ | ⟨hfinished, -⟩
  · omega
  · exact hnext
  · exact absurd hunfinished hfinished

/-- A part of an item is cut short. -/
theorem ofItem_of_part (version : ProtocolVersion)
    (hreads : Cbor.Reads (.more .start) (part ++ more) (.done v)) (hmore : more ≠ []) :
    Message.ofItem version part = .error ⟨part, .cbor .truncated⟩ := by
  have hparse : Cbor.parse part = .error .truncated := by
    obtain ⟨hunfinished, -⟩ := hreads.run_of_cut hmore
    unfold Cbor.parse
    generalize Cbor.State.start.run part = answer at hunfinished ⊢
    obtain ⟨outcome, left⟩ := answer
    obtain rfl : outcome = .unfinished := hunfinished
    rfl
  rw [Message.ofItem, hparse]

theorem delimits_of_reads (hreads : Cbor.Reads (.more .start) item (.done v))
    (hm : Message.ofStructured version v = .ok m) (hlimit : item.length ≤ limit) :
    Delimits version limit item m where
  means := Message.ofItem_eq_ok_iff.2 ⟨v, Cbor.parse_eq_ok_iff.2 hreads, hm⟩
  exact := nextItem_of_reads hreads hm hlimit
  waits := by
    rintro part more rfl - hmore
    rw [List.length_append] at hlimit
    exact nextItem_of_part hreads hmore (by omega)
  cut := by
    rintro part more rfl - hmore
    exact ⟨.truncated, ofItem_of_part version hreads hmore, rfl⟩

/-- **No item is a part of another**, in whatever versions they are decoded. -/
theorem eq_nil_of_ofItem {version' : ProtocolVersion} {m' : Message}
    (h : Message.ofItem version part = .ok m)
    (h' : Message.ofItem version' (part ++ more) = .ok m') : more = [] := by
  obtain ⟨v, hparse, -⟩ := Message.ofItem_eq_ok_iff.1 h'
  by_contra hmore
  have hcut := ofItem_of_part version (Cbor.parse_eq_ok_iff.1 hparse) hmore
  rw [h] at hcut
  cases hcut

/-- What is taken off the front of a buffer for a message is an item within the limit. -/
theorem reads_of_nextItem (h : nextItem version limit buffer = (.ok (some m), rest)) :
    ∃ item v, buffer = item ++ rest ∧ Cbor.Reads (.more .start) item (.done v) ∧
      Message.ofStructured version v = .ok m ∧ item.length ≤ limit := by
  rcases nextItem_cases version limit buffer with
    ⟨-, ⟨-, hnext⟩ | ⟨-, hnext⟩⟩ | ⟨hfinished, ⟨-, hnext⟩ | ⟨hlimit, hnext⟩⟩
  · rw [hnext] at h
    cases h
  · rw [hnext] at h
    cases h
  · rw [hnext] at h
    cases h
  · rw [hnext] at h
    obtain ⟨hanswer, rfl⟩ := Prod.mk.inj h
    have hmessage : Message.atFront version buffer = .ok m := by
      obtain ⟨m', hm', heq⟩ := map_eq_ok_iff.1 hanswer
      cases heq
      exact mapError_eq_ok_iff.1 hm'
    have hrest := rest_eq_behindItem buffer hfinished
    unfold Message.atFront at hmessage
    cases hrun : Cbor.State.start.run buffer with
    | mk outcome left =>
      rw [hrun] at hmessage hrest
      obtain rfl : left = behindItem buffer := hrest
      cases outcome with
      | done v =>
        obtain ⟨taken, hsplit, hreads⟩ := Cbor.reads_of_run hrun
        have htaken : taken = itemAt buffer :=
          List.append_cancel_right (hsplit.symm.trans (itemAt_append_behindItem buffer).symm)
        exact ⟨taken, v, hsplit, hreads, hmessage, by rwa [htaken]⟩
      | failed e => cases hmessage
      | unfinished => cases hmessage

/-- **Items delimit themselves.** The octets that a codec takes off the front of its buffer for a
message are one item of that message, and they alone say where it ends: on its own it is decoded to
the message; behind it, anything at all is left in the buffer; and a part of it, if not empty, is
waited on and left as it is, and on its own is cut short. Conversely an item of a message, within
the limit, gives the message and leaves the buffer empty. -/
theorem items_delimit (version : ProtocolVersion) (limit : Nat) :
    (∀ buffer rest m, nextItem version limit buffer = (.ok (some m), rest) →
      ∃ item, buffer = item ++ rest ∧ Delimits version limit item m) ∧
    ∀ item m, Message.ofItem version item = .ok m → item.length ≤ limit →
      nextItem version limit item = (.ok (some m), []) := by
  constructor
  · intro buffer rest m h
    obtain ⟨item, v, rfl, hreads, hm, hlimit⟩ := reads_of_nextItem h
    exact ⟨item, rfl, delimits_of_reads hreads hm hlimit⟩
  · intro item m h hlimit
    obtain ⟨v, hparse, hm⟩ := Message.ofItem_eq_ok_iff.1 h
    have hnext := nextItem_of_reads (Cbor.parse_eq_ok_iff.1 hparse) hm hlimit []
    rwa [List.append_nil] at hnext

/-- The end of the file, in a map of indefinite length. -/
def indefiniteItem : Bytes := [0xbf, 0x69] ++ Text.bytes "EndOfFile" ++ [0xa0, 0xff]

/-- It ends with its break, whatever is behind it, and on its own it empties the buffer. -/
theorem items_delimit_indefiniteItem :
    nextItem .v2 13 (indefiniteItem ++ [0x01]) = (.ok (some .endOfFile), [0x01]) ∧
      Delimits .v2 13 indefiniteItem .endOfFile ∧
      nextItem .v2 13 indefiniteItem = (.ok (some .endOfFile), []) := by
  have hnext : nextItem .v2 13 (indefiniteItem ++ [0x01]) = (.ok (some .endOfFile), [0x01]) := by
    decide +kernel
  have hlimit : indefiniteItem.length ≤ 13 := by decide
  obtain ⟨hfront, hwhole⟩ := items_delimit .v2 13
  obtain ⟨item, hsplit, hdelimits⟩ := hfront _ _ _ hnext
  obtain rfl : item = indefiniteItem := List.append_cancel_right hsplit.symm
  exact ⟨hnext, hdelimits, hwhole _ _ hdelimits.means hlimit⟩

end WarcStream.MessageCodec
