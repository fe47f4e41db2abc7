import WarcStream.Proofs.Message.Roundtrip
/-!
# A stream whose producer has died

The octets on the wire may end anywhere. `MessageConfig.places` says where the
payload of each message stands, and `yields_of_prefix` what a reader of the
first octets yields: the messages whose payload is there in whole, with or
without what closes its frame, and an error with what is there of a payload
that is cut.
-/

namespace WarcStream

open Transport

/-- A message with the place of its payload on the wire. -/
structure Place where
  message : Message
  /-- The octets before the payload. -/
  start : Nat
  /-- The octets before its end. -/
  stop : Nat
  deriving DecidableEq, Repr

/-- The payload ends within the first `n` octets. -/
def Place.isWhole (p : Place) (n : Nat) : Bool := decide (p.stop ≤ n)

/-- The first `n` octets hold some of the payload and not all of it. -/
def Place.isCut (p : Place) (n : Nat) : Bool := decide (p.start < n ∧ n < p.stop)

namespace MessageConfig

variable {c : MessageConfig} {m : Message} {ms : List Message} {n position : Nat} {p : Place}

/-- The places of messages on the wire, behind `position` octets. -/
def places (c : MessageConfig) : (position : Nat) → List Message → List Place
  | _, [] => []
  | position, m :: ms =>
    ⟨m, position + c.opening.length, position + c.opening.length + (c.text m).length⟩ ::
      c.places (position + (c.frame (c.text m)).length) ms

theorem map_message_places (c : MessageConfig) (position : Nat) (ms : List Message) :
    (c.places position ms).map Place.message = ms := by
  induction ms generalizing position with
  | nil => rfl
  | cons m ms ih => rw [places, List.map_cons, ih]

/-- What stands in front of the payload and behind it. -/
theorem frame_eq (c : MessageConfig) (payload : Bytes) :
    ∃ closing, c.frame payload = c.opening ++ payload ++ closing := by
  cases h : c.format.framing? with
  | some framing =>
    refine ⟨[Bytes.lineFeed], ?_⟩
    rw [frame_of_framing h, opening_of_framing h]
    rfl
  | none =>
    refine ⟨[], ?_⟩
    rw [frame_of_items h, opening_of_items h, List.nil_append, List.append_nil]

theorem length_frame_ge (c : MessageConfig) (payload : Bytes) :
    c.opening.length + payload.length ≤ (c.frame payload).length := by
  obtain ⟨closing, hframe⟩ := c.frame_eq payload
  rw [hframe, List.length_append, List.length_append]
  exact Nat.le_add_right _ _

theorem text_ne_nil (c : MessageConfig) (m : Message) : c.text m ≠ [] := by
  cases h : c.format.framing? with
  | some framing => exact (isPlain_text h m).ne_nil
  | none =>
    rw [text_of_items h]
    exact List.length_pos_iff.1 (Cbor.length_encode_pos m.document)

/-- A place lies behind the frames of the messages before it. -/
theorem exists_of_mem_places (h : p ∈ c.places position ms) :
    ∃ before after, ms = before ++ p.message :: after ∧
      p.start = position + (c.wire before).length + c.opening.length ∧
      p.stop = p.start + (c.text p.message).length := by
  induction ms generalizing position with
  | nil => simp [places] at h
  | cons m ms ih =>
    rcases List.mem_cons.1 h with rfl | h
    · exact ⟨[], ms, rfl, rfl, rfl⟩
    · obtain ⟨before, after, rfl, hstart, hstop⟩ := ih h
      refine ⟨m :: before, after, rfl, ?_, hstop⟩
      rw [hstart, wire_cons, List.length_append, Nat.add_assoc position]

theorem wire_append (c : MessageConfig) (before after : List Message) :
    c.wire (before ++ after) = c.wire before ++ c.wire after :=
  List.flatMap_append

/-- Messages whose frames are there in whole come first. -/
theorem cut_append (c : MessageConfig) (before after : List Message) (n : Nat) :
    c.cut (before ++ after) ((c.wire before).length + n) =
      (before ++ (c.cut after n).1, (c.cut after n).2) := by
  induction before with
  | nil => rw [wire, List.flatMap_nil, List.length_nil, Nat.zero_add]; rfl
  | cons m ms ih =>
    rw [wire_cons, List.length_append, Nat.add_assoc, List.cons_append, cut,
      if_pos (Nat.le_add_right _ _), Nat.add_sub_cancel_left, ih]
    rfl

/-- **A place holds the payload** of its message. -/
theorem slice_of_mem_places (h : p ∈ c.places 0 ms) :
    ((c.wire ms).drop p.start).take (p.stop - p.start) = c.text p.message := by
  obtain ⟨before, after, rfl, hstart, hstop⟩ := exists_of_mem_places h
  obtain ⟨closing, hframe⟩ := c.frame_eq (c.text p.message)
  have hdrop : (c.wire (before ++ p.message :: after)).drop p.start =
      c.text p.message ++ (closing ++ c.wire after) := by
    rw [hstart, Nat.zero_add, ← List.length_append, wire_append, wire_cons, hframe,
      List.append_assoc c.opening, List.append_assoc, ← List.append_assoc (c.wire before),
      List.drop_left, List.append_assoc]
  rw [hdrop, hstop, Nat.add_sub_cancel_left, List.take_left]

/-- **What is there of a payload that is cut** is the part behind the messages that are whole. -/
theorem part_of_isCut (h : p ∈ c.places 0 ms) (hcut : p.isCut n = true) :
    (c.cut ms n).2 = ((c.wire ms).take n).drop p.start ∧ (c.cut ms n).2 ≠ [] := by
  obtain ⟨before, after, rfl, hstart, hstop⟩ := exists_of_mem_places h
  obtain ⟨closing, hframe⟩ := c.frame_eq (c.text p.message)
  rw [Place.isCut, decide_eq_true_iff] at hcut
  obtain ⟨k, rfl⟩ : ∃ k, n = (c.wire before).length + (c.opening.length + k) :=
    ⟨n - p.start, by omega⟩
  have hlen := congrArg List.length hframe
  rw [List.length_append, List.length_append] at hlen
  have hpart : (c.cut (p.message :: after) (c.opening.length + k)).2 =
      (c.text p.message).take k := by
    rw [cut, if_neg (by omega), Nat.add_sub_cancel_left, if_neg (by omega)]
  rw [cut_append, hpart]
  constructor
  · have htake : (c.wire (before ++ p.message :: after)).take
        ((c.wire before).length + (c.opening.length + k)) =
          (c.wire before ++ c.opening) ++ (c.text p.message).take k := by
      rw [wire_append, wire_cons, hframe, List.take_append, List.take_of_length_le (by omega),
        Nat.add_sub_cancel_left, List.append_assoc, List.append_assoc, List.take_append,
        List.take_of_length_le (by omega), Nat.add_sub_cancel_left,
        List.take_append_of_le_length (by omega), List.append_assoc]
    rw [htake, hstart, Nat.zero_add, ← List.length_append, List.drop_left]
  · rw [← List.length_pos_iff, List.length_take]
    omega

/-- Nothing is left of a payload if none is cut. -/
theorem part_of_not_isCut (position n : Nat)
    (h : ∀ p ∈ c.places position ms, p.isCut (position + n) = false) :
    (c.cut ms n).2 = [] := by
  induction ms generalizing position n with
  | nil => rfl
  | cons m ms ih =>
    have hfirst := h _ List.mem_cons_self
    simp only [Place.isCut, decide_eq_false_iff_not] at hfirst
    rw [cut]
    by_cases hwhole : (c.frame (c.text m)).length ≤ n
    · rw [if_pos hwhole]
      refine ih (position + (c.frame (c.text m)).length) _ fun p hp => ?_
      rw [show position + (c.frame (c.text m)).length + (n - (c.frame (c.text m)).length) =
        position + n by omega]
      exact h p (List.mem_cons_of_mem _ hp)
    · rw [if_neg hwhole]
      by_cases hpayload : (c.text m).length ≤ n - c.opening.length
      · rw [if_pos hpayload]
      · rw [if_neg hpayload, show n - c.opening.length = 0 by omega]
        rfl

/-- No payload behind the first octets is whole within them. -/
theorem whole_places_of_lt (c : MessageConfig) (ms : List Message) (h : n < position) :
    (c.places position ms).filter (fun p => p.isWhole n) = [] := by
  refine List.filter_eq_nil_iff.2 fun p hp => ?_
  obtain ⟨before, after, -, hstart, hstop⟩ := exists_of_mem_places hp
  rw [Place.isWhole, decide_eq_true_iff]
  omega

/-- **The messages that are there in whole** are those whose payload ends within the first
octets. -/
theorem whole_places (c : MessageConfig) (position : Nat) (ms : List Message) (n : Nat) :
    ((c.places position ms).filter fun p => p.isWhole (position + n)).map Place.message =
      (c.cut ms n).1 := by
  induction ms generalizing position n with
  | nil => rfl
  | cons m ms ih =>
    have hsome := List.length_pos_iff.2 (c.text_ne_nil m)
    have hframe := c.length_frame_ge (c.text m)
    rw [places, cut]
    by_cases hwhole : (c.frame (c.text m)).length ≤ n
    · have hrest := ih (position + (c.frame (c.text m)).length) (n - (c.frame (c.text m)).length)
      rw [show position + (c.frame (c.text m)).length + (n - (c.frame (c.text m)).length) =
        position + n by omega] at hrest
      rw [if_pos hwhole, List.filter_cons_of_pos, List.map_cons, hrest]
      rw [Place.isWhole, decide_eq_true_iff]
      simp only
      omega
    · have hnone := c.whole_places_of_lt ms
        (show position + n < position + (c.frame (c.text m)).length by omega)
      rw [if_neg hwhole]
      by_cases hpayload : (c.text m).length ≤ n - c.opening.length
      · rw [if_pos hpayload, List.filter_cons_of_pos, hnone]
        · rfl
        · rw [Place.isWhole, decide_eq_true_iff]
          simp only
          omega
      · rw [if_neg hpayload, List.filter_cons_of_neg, hnone]
        · rfl
        · rw [Place.isWhole, decide_eq_true_iff]
          simp only
          omega

end MessageConfig

namespace MessageWriter

variable {w : MessageWriter} {ms : List Message} {p : Place}

/-- A place of an accepted message holds what the message is encoded to. -/
theorem payload_of_mem_places (hsink : w.sink.Reliable)
    (h : p ∈ w.config.places 0 (accepted (w.offer ms).1)) :
    w.config.payload p.message = .ok
      (((w.config.wire (accepted (w.offer ms).1)).drop p.start).take (p.stop - p.start)) := by
  have hmem : p.message ∈ accepted (w.offer ms).1 := by
    have hmap := List.mem_map_of_mem (f := Place.message) h
    rwa [MessageConfig.map_message_places] at hmap
  have haccepts := accepts_of_mem_accepted hsink _ hmem
  rw [MessageConfig.payload_eq, if_pos (MessageConfig.accepts_iff.1 haccepts).1,
    MessageConfig.slice_of_mem_places h]

/-- **A stream cut anywhere yields no wrong message.** The octets that a writer put on the wire end
behind any `n` of them. Then a reader of the same configuration yields the messages whose payload
ends within these `n`, in their order, whatever the cuts and interruptions of its source. If no
payload is cut, nothing comes behind them. If one is, an error does, with the octets of this payload
that are there: they are no JSON text, or an item that is cut short. The limit is a word of
sixty-four bits. -/
theorem yields_of_prefix (w : MessageWriter) (ms : List Message) (hsink : w.sink.Reliable)
    (hlimit : w.config.limit < 2 ^ 64) :
    let wire := w.config.wire (accepted (w.offer ms).1)
    let places := w.config.places 0 (accepted (w.offer ms).1)
    (w.offer ms).2.sink.taken = w.sink.taken ++ wire ∧
    places.map Place.message = accepted (w.offer ms).1 ∧
    (∀ p ∈ places,
      w.config.payload p.message = .ok ((wire.drop p.start).take (p.stop - p.start))) ∧
    ∀ (n : Nat) (s : Source), s.Delivers (wire.take n) →
      let whole := (places.filter fun p => p.isWhole n).map Place.message
      ((∀ p ∈ places, p.isCut n = false) → (MessageReader.ofConfig w.config s).Yields whole none) ∧
      ∀ p ∈ places, p.isCut n = true →
        ∃ reason, w.config.IsTruncation ((wire.take n).drop p.start) reason ∧
          (MessageReader.ofConfig w.config s).Yields whole
            (some (.decode ⟨(wire.take n).drop p.start, reason⟩)) := by
  intro wire places
  refine ⟨taken_eq_wire hsink, MessageConfig.map_message_places _ _ _,
    fun p hp => payload_of_mem_places hsink hp, fun n s hs => ?_⟩
  have hwhole := MessageConfig.whole_places w.config 0 (accepted (w.offer ms).1) n
  rw [Nat.zero_add] at hwhole
  obtain ⟨hclean, hpart⟩ :=
    MessageReader.yields_cut hlimit (accepts_of_mem_accepted hsink) hs
  rw [← hwhole] at hclean hpart
  constructor
  · intro hnone
    refine hclean (MessageConfig.part_of_not_isCut 0 n ?_)
    rwa [Nat.zero_add]
  · intro p hp hcut
    obtain ⟨heq, hsome⟩ := MessageConfig.part_of_isCut hp hcut
    rw [← heq]
    exact hpart hsome

/-- Of two short lines, the second cut behind its third octet. -/
theorem yields_of_prefix_shortLines :
    (shortLines.sink.Reliable ∧ shortLines.config.limit < 2 ^ 64) ∧
      ∀ s : Source, s.Delivers ((shortLines.config.wire [.endOfFile, .endOfFile]).take 20) →
        ∃ reason, shortLines.config.IsTruncation [0x7b, 0x22, 0x45] reason ∧
          (MessageReader.ofConfig shortLines.config s).Yields [.endOfFile]
            (some (.decode ⟨[0x7b, 0x22, 0x45], reason⟩)) := by
  refine ⟨⟨reliable_shortLines, limit_shortLines⟩, fun s hs => ?_⟩
  have haccepted :
      accepted (shortLines.offer [.endOfFile, .endOfFile]).1 = [.endOfFile, .endOfFile] := by
    rw [(taken_offer reliable_shortLines _).1]
    decide
  obtain ⟨-, -, -, hread⟩ :=
    yields_of_prefix shortLines [.endOfFile, .endOfFile] reliable_shortLines limit_shortLines
  rw [haccepted] at hread
  obtain ⟨-, hcut⟩ := hread 20 s hs
  exact hcut ⟨.endOfFile, 17, 33⟩ (by decide) (by decide)

end MessageWriter

end WarcStream
