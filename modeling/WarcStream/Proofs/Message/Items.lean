import WarcStream.Proofs.Cbor.Passage
import WarcStream.Proofs.Message.Yield
/-!
# A stream of items

What the octets of a stream of CBOR items come to, whoever reads them: `Splits`
says which items stand at their front, and `Stops` what is behind the last one,
the end or an error. There is one such splitting, and one stop but for the size
that a reader reports of an item that is too large (`Splits.unique`). A reader of
items yields just these messages, and stops there (`yields_items`).
-/

namespace WarcStream

open Transport

variable {version : ProtocolVersion} {limit : Nat} {octets xs ys zs rest rest' : Bytes}
variable {items items' : List (Bytes × Message)} {m : Message}
variable {stop stop' : Option MessageError}

/-- The octets that the parser takes of a stream for the item at its front. -/
def itemAt (octets : Bytes) : Bytes := Cbor.State.start.front octets

/-- The octets behind the item at the front of a stream. -/
def behindItem (octets : Bytes) : Bytes := octets.drop (itemAt octets).length

/-- The message of the item at the front of a stream. -/
def Message.atFront (version : ProtocolVersion) (octets : Bytes) : Except DecodeReason Message :=
  match (Cbor.State.start.run octets).1 with
  | .done v => ofStructured version v
  | .failed e => .error (.cbor e)
  | .unfinished => .error (.cbor .truncated)

/-- The octets are these items, each within the limit and with its message, and a rest. -/
inductive Splits (version : ProtocolVersion) (limit : Nat) :
    Bytes → List (Bytes × Message) → Bytes → Prop
  | nil (octets : Bytes) : Splits version limit octets [] octets
  | cons {octets rest : Bytes} {items : List (Bytes × Message)} {m : Message} :
      (itemAt octets).length ≤ limit → Message.atFront version octets = .ok m →
      Splits version limit (behindItem octets) items rest →
      Splits version limit octets ((itemAt octets, m) :: items) rest

/-- No message stands at the front of the octets, and reading them stops with this error or with
none. -/
inductive Stops (version : ProtocolVersion) (limit : Nat) : Bytes → Option MessageError → Prop
  /-- There are no octets. -/
  | ended : Stops version limit [] none
  /-- The item is within the limit and no message, or it is cut short. -/
  | malformed {octets : Bytes} {reason : DecodeReason} :
      octets ≠ [] → (itemAt octets).length ≤ limit →
      Message.atFront version octets = .error reason →
      Stops version limit octets (some (.decode ⟨itemAt octets, reason⟩))
  /-- The item is over the limit. A reader may stop anywhere behind the limit. -/
  | tooLarge {octets : Bytes} {size : Nat} :
      limit < (itemAt octets).length → limit < size →
      Stops version limit octets (some (.frame (.tooLarge size limit)))

/-- Reading stops for the same reason, but for the size of an item over the limit. -/
inductive Alike : Option MessageError → Option MessageError → Prop
  | same (stop : Option MessageError) : Alike stop stop
  | tooLarge (size size' limit : Nat) :
      Alike (some (.frame (.tooLarge size limit))) (some (.frame (.tooLarge size' limit)))

/-! ## The item at the front -/

@[simp] theorem itemAt_nil : itemAt [] = [] := Cbor.State.start.front_nil

theorem itemAt_append_behindItem (octets : Bytes) : itemAt octets ++ behindItem octets = octets :=
  List.prefix_iff_eq_append.1 (Cbor.State.start.front_prefix octets)

theorem length_behindItem_lt (h : octets ≠ []) : (behindItem octets).length < octets.length := by
  have hsplit := congrArg List.length (itemAt_append_behindItem octets)
  have hpos := List.length_pos_iff.2 (Cbor.State.start.front_ne_nil h)
  rw [List.length_append, itemAt] at hsplit
  omega

theorem ne_nil_of_atFront (h : Message.atFront version octets = .ok m) : octets ≠ [] := by
  rintro rfl
  rw [Message.atFront, Cbor.State.run_nil] at h
  cases h

/-! ## The splitting -/

theorem Splits.eq_append (h : Splits version limit octets items rest) :
    octets = items.flatMap Prod.fst ++ rest := by
  induction h with
  | nil => rfl
  | @cons octets rest items m _ _ _ ih =>
    rw [List.flatMap_cons, List.append_assoc, ← ih, itemAt_append_behindItem]

theorem Splits.trans (h : Splits version limit xs items ys)
    (h' : Splits version limit ys items' zs) :
    Splits version limit xs (items ++ items') zs := by
  induction h with
  | nil => exact h'
  | cons hlimit hm _ ih => exact .cons hlimit hm (ih h')

/-- Where a message stands, reading does not stop. -/
theorem Stops.not_atFront (h : Stops version limit octets stop)
    (hlimit : (itemAt octets).length ≤ limit) (hm : Message.atFront version octets = .ok m) : False := by
  cases h with
  | ended => exact ne_nil_of_atFront hm rfl
  | malformed _ _ herror =>
    rw [hm] at herror
    cases herror
  | tooLarge hlarge _ => omega

/-- There are two reasons to stop in one place only if they are alike. -/
theorem Stops.alike (h : Stops version limit octets stop) (h' : Stops version limit octets stop') :
    Alike stop stop' := by
  cases h with
  | ended =>
    cases h' with
    | ended => exact .same none
    | malformed hsome => exact absurd rfl hsome
    | tooLarge hlarge _ =>
      rw [itemAt_nil] at hlarge
      exact absurd hlarge (Nat.not_lt_zero _)
  | malformed hsome hlimit herror =>
    cases h' with
    | ended => exact absurd rfl hsome
    | malformed _ _ herror' =>
      rw [herror] at herror'
      cases herror'
      exact .same _
    | tooLarge hlarge _ => omega
  | tooLarge hlarge _ =>
    cases h' with
    | ended =>
      rw [itemAt_nil] at hlarge
      exact absurd hlarge (Nat.not_lt_zero _)
    | malformed _ hlimit _ => omega
    | tooLarge => exact .tooLarge _ _ _

/-- **There is one splitting**: the same messages in the same octets, and the same stop. -/
theorem Splits.unique (h : Splits version limit octets items rest)
    (hstop : Stops version limit rest stop) (h' : Splits version limit octets items' rest')
    (hstop' : Stops version limit rest' stop') :
    items = items' ∧ rest = rest' := by
  induction h generalizing items' with
  | nil =>
    cases h' with
    | nil => exact ⟨rfl, rfl⟩
    | cons hlimit hm => exact (hstop.not_atFront hlimit hm).elim
  | cons hlimit hm _ ih =>
    cases h' with
    | nil => exact (hstop'.not_atFront hlimit hm).elim
    | cons _ hm' hrest' =>
      rw [hm] at hm'
      cases hm'
      obtain ⟨rfl, rfl⟩ := ih hstop hrest'
      exact ⟨rfl, rfl⟩

/-- Reading stops at an item over the limit just if the parser takes more of it than that. -/
theorem Stops.tooLarge_iff (h : Stops version limit octets stop) :
    (∃ size, stop = some (.frame (.tooLarge size limit))) ↔ limit < (itemAt octets).length := by
  constructor
  · rintro ⟨size, rfl⟩
    cases h with
    | tooLarge hlarge _ => exact hlarge
  · intro hlarge
    cases h with
    | ended =>
      rw [itemAt_nil] at hlarge
      exact absurd hlarge (Nat.not_lt_zero _)
    | malformed _ hlimit _ => omega
    | tooLarge => exact ⟨_, rfl⟩

/-! ## A reader -/

namespace MessageSource

variable {b : BufferedSource}

/-- What a reader makes of an item within the limit. -/
theorem ofArrival_ofOutcome (version : ProtocolVersion) (limit : Nat) (octets : Bytes) :
    ofArrival version limit (itemAt octets) (.ofOutcome (Cbor.State.start.run octets).1) =
      (Message.atFront version octets).mapError fun reason => .decode ⟨itemAt octets, reason⟩ := by
  unfold Message.atFront
  cases (Cbor.State.start.run octets).1 with
  | done v => rfl
  | failed e => rfl
  | unfinished => rfl

/-- **All that one call of a reader of items can come to.** -/
theorem nextItem_cases (version : ProtocolVersion) (limit : Nat) (hb : b.Delivers octets) :
    (octets = [] ∧ ∃ later, nextItem version limit b = (.ok none, later)) ∨
    (limit < (itemAt octets).length ∧ ∃ size later, limit < size ∧
      nextItem version limit b = (.error (.frame (.tooLarge size limit)), later)) ∨
    (octets ≠ [] ∧ (itemAt octets).length ≤ limit ∧ ∃ later, later.Delivers (behindItem octets) ∧
      nextItem version limit b =
        (((Message.atFront version octets).mapError fun reason =>
          .decode ⟨itemAt octets, reason⟩).map some, later)) := by
  obtain ⟨ready, hawait, hready⟩ := hb.awaitOctets
  by_cases hnone : octets = []
  · refine .inl ⟨hnone, ready, ?_⟩
    rw [hnone] at hawait
    simp only [nextItem, hawait, List.isEmpty_nil, Bool.not_true]
  · have hany : octets.isEmpty = false := by simp [hnone]
    rw [hany] at hawait
    refine .inr ?_
    by_cases hlarge : limit < (itemAt octets).length
    · obtain ⟨size, taken, later, hpull, hsize⟩ :=
        Cbor.pull_of_excess hready hlarge
      refine .inl ⟨hlarge, size, later, hsize, ?_⟩
      simp only [nextItem, hawait, Bool.not_false, hpull, ofArrival]
      rfl
    · have hlimit := Nat.le_of_not_lt hlarge
      obtain ⟨later, hpull, hlater⟩ :=
        Cbor.pull_of_delivers hready hlimit
      refine .inr ⟨hnone, hlimit, later, hlater, ?_⟩
      rw [← ofArrival_ofOutcome version limit]
      simp only [nextItem, hawait, Bool.not_false, hpull]
      rfl

end MessageSource

/-- **A reader of items** yields the messages at the front of its stream, and stops behind them. -/
theorem MessageReader.yields_items {r : MessageReader} {b : BufferedSource} (hdone : r.done = false)
    (hsource : r.source = .items b) (hb : b.Delivers octets) :
    ∃ items rest stop, Splits r.config.version r.config.limit octets items rest ∧
      Stops r.config.version r.config.limit rest stop ∧ r.Yields (items.map Prod.snd) stop := by
  -- along the messages, each of which leaves fewer octets
  induction hn : octets.length using Nat.strongRecOn generalizing r b octets with
  | _ n ih =>
    rcases MessageSource.nextItem_cases r.config.version r.config.limit hb with
      ⟨rfl, later, hitem⟩ | ⟨hlarge, size, later, hsize, hitem⟩ |
        ⟨hsome, hlimit, later, hlater, hitem⟩
    · exact ⟨[], [], none, .nil _, .ended, yields_of_end (next_of_item hdone hsource hitem) rfl⟩
    · exact ⟨[], octets, _, .nil _, .tooLarge hlarge hsize,
        yields_of_error (next_of_item hdone hsource hitem) rfl⟩
    · cases hfront : Message.atFront r.config.version octets with
      | error reason =>
        rw [hfront] at hitem
        exact ⟨[], octets, _, .nil _, .malformed hsome hlimit hfront,
          yields_of_error (next_of_item hdone hsource hitem) rfl⟩
      | ok m =>
        rw [hfront] at hitem
        obtain ⟨items, rest, stop, hsplits, hstops, hyields⟩ :=
          ih _ (hn ▸ length_behindItem_lt hsome)
            (r := { r with source := .items later, count := r.count + 1 }) hdone rfl hlater rfl
        exact ⟨(itemAt octets, m) :: items, rest, stop, .cons hlimit hfront hsplits, hstops,
          hyields.cons (next_of_item hdone hsource hitem)⟩

end WarcStream
