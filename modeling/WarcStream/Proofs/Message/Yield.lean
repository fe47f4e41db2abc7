import WarcStream.Message.Reader
import WarcStream.Proofs.Cbor.Passage
import WarcStream.Proofs.Frame.Reassembly
/-!
# What a message reader yields

`Yields` says what any number of calls of a reader come to: messages, at most
one error, and nothing from then on. It is put together call by call, from what
the source gives for an answer (`next_of_source`). A reader of frames goes by
what its frame reader still holds, a reader of items by the octets its source
delivers: `next_of_whole_item`, `yields_of_truncated_item`.
-/

namespace WarcStream

open Transport Bytes

namespace FrameReader

/-- A reader within its limit that is still to hand out these segments, and nothing else. -/
structure Holds (r : FrameReader) (segments : List Bytes) : Prop where
  sound : r.Sound
  reports_eq : r.reports = segments.map .ok

/-- **A reader with nothing read yet** holds the runs of its stream that are not blank. -/
theorem holds_ofConfig {c : FrameConfig} {s : Source} {octets : Bytes} (h : s.Delivers octets)
    (hfits : Fits c.framing.delimiter c.limit octets) :
    (ofConfig c s).Holds (solid (octets.splitOn c.framing.delimiter)) := by
  have hlive := h.live_eq
  constructor
  · refine sound_ofConfig ?_
    rwa [hlive, h.octetsOf_eq]
  · have hquiet := transcript_of_quiet h.quiet c.framing.delimiter []
    rw [List.nil_append, h.octetsOf_eq, ← hlive] at hquiet
    exact hquiet

end FrameReader

namespace MessageSource

/-- What the answer of a frame reader means. -/
def ofFrame (version : ProtocolVersion) :
    Except FrameError (Option Bytes) → Except MessageError (Option Message)
  | .error e => .error (.frame e)
  | .ok none => .ok none
  | .ok (some segment) => ((Message.ofSegment version segment).mapError .decode).map some

/-- The equation of taking a frame. -/
theorem nextFrame_eq (version : ProtocolVersion) (reader : FrameReader) :
    nextFrame version reader = (ofFrame version reader.next.1, reader.next.2) := by
  unfold nextFrame
  split
  · rename_i hnext
    rw [hnext]
    rfl
  · rename_i hnext
    rw [hnext]
    rfl
  · rename_i hnext
    rw [hnext]
    rfl

end MessageSource

namespace MessageReader

variable {r next : MessageReader} {m : Message} {ms : List Message} {e : MessageError}
variable {stop : Option MessageError}

/-- In a format with a framing, the messages come in frames, -/
theorem source_of_framing {c : MessageConfig} {framing : Framing}
    (h : c.format.framing? = some framing) (s : Source) :
    (ofConfig c s).source = .frames (.ofConfig (c.frames framing) s) := by
  simp only [ofConfig, h]

/-- and in one without, as items. -/
theorem source_of_items {c : MessageConfig} (h : c.format.framing? = none) (s : Source) :
    (ofConfig c s).source = .items { capacity := max c.chunk 1, source := s } := by
  simp only [ofConfig, h]

/-- The answers to the next `n` calls. -/
def answers : Nat → MessageReader → List (Except MessageError (Option Message))
  | 0, _ => []
  | n + 1, r => r.next.1 :: answers n r.next.2

/-- The reader after the next `n` calls. -/
def after : Nat → MessageReader → MessageReader
  | 0, r => r
  | n + 1, r => after n r.next.2

/-- **What a reader comes to**: these messages, then the error if there is one, and then nothing,
however often it is called. -/
def Yields (r : MessageReader) (ms : List Message) (stop : Option MessageError) : Prop :=
  ∀ k, r.answers (ms.length + stop.toList.length + k) =
    ms.map (fun m => .ok (some m)) ++ stop.toList.map .error ++ List.replicate k (.ok none)

/-- A reader that has come to the end stays there. -/
theorem answers_of_done (h : r.done = true) (k : Nat) :
    r.answers k = List.replicate k (.ok none) := by
  induction k with
  | zero => rfl
  | succ k ih =>
    have hnext : r.next = (.ok none, r) := by rw [MessageReader.next, if_pos h]
    rw [answers, hnext, ih]
    rfl

theorem yields_of_end (hnext : r.next = (.ok none, next)) (hdone : next.done = true) :
    r.Yields [] none := by
  intro k
  match k with
  | 0 => rfl
  | k + 1 =>
    simp only [List.length_nil, Option.toList_none, Nat.zero_add, List.map_nil, List.nil_append]
    rw [answers, hnext, answers_of_done hdone]
    rfl

theorem yields_of_error (hnext : r.next = (.error e, next)) (hdone : next.done = true) :
    r.Yields [] (some e) := by
  intro k
  simp only [List.length_nil, Option.toList_some, List.length_singleton, Nat.zero_add,
    List.map_nil, List.nil_append, List.map_cons, List.singleton_append]
  rw [Nat.add_comm, answers, hnext, answers_of_done hdone]

theorem Yields.cons (h : next.Yields ms stop) (hnext : r.next = (.ok (some m), next)) :
    r.Yields (m :: ms) stop := by
  intro k
  rw [List.length_cons, Nat.add_right_comm ms.length, Nat.add_right_comm _ 1 k, answers, hnext, h k]
  rfl

/-- What a call comes to, once the source has given its answer: a message is counted, and anything
else is the last answer. -/
def taking (r : MessageReader) :
    Except MessageError (Option Message) → MessageSource →
      Except MessageError (Option Message) × MessageReader
  | .ok (some m), source => (.ok (some m), { r with source, count := r.count + 1 })
  | answer, source => (answer, { r with source, done := true })

/-- The equation of one call of a reader that has not come to the end. -/
theorem next_of_source {answer : Except MessageError (Option Message)} {later : MessageSource}
    (hdone : r.done = false)
    (hsource : r.source.next r.config.version r.config.limit = (answer, later)) :
    r.next = r.taking answer later := by
  rw [MessageReader.next, if_neg (by simp [hdone]), hsource]
  cases answer with
  | error e => rfl
  | ok found => cases found <;> rfl

/-- All that one call can come to: a message, which leaves less to come, or the end or an error,
either of which the reader stays at. -/
theorem next_cases (r : MessageReader) :
    (∃ m next, r.next = (.ok (some m), next) ∧ next.remaining < r.remaining ∧
      next.config = r.config) ∨
    (∃ next, r.next = (.ok none, next) ∧ next.done = true) ∨
    ∃ e next, r.next = (.error e, next) ∧ next.done = true := by
  cases hnext : r.next with
  | mk answer next =>
    have hopen := hnext
    unfold MessageReader.next at hopen
    split at hopen
    · rename_i hdone
      cases hopen
      exact .inr (.inl ⟨r, rfl, hdone⟩)
    · split at hopen
      · rename_i m source _
        cases hopen
        exact .inl ⟨m, _, rfl, remaining_next_lt hnext, rfl⟩
      · rename_i source hother _
        cases hopen
        match answer, hother with
        | .error e, _ => exact .inr (.inr ⟨e, _, rfl, rfl⟩)
        | .ok none, _ => exact .inr (.inl ⟨_, rfl, rfl⟩)
        | .ok (some m), hother => exact absurd rfl (hother m)

/-- **Every reader comes to an end** or to an error. -/
theorem exists_yields (r : MessageReader) : ∃ ms stop, r.Yields ms stop := by
  -- along the messages, each of which leaves less to come
  induction hn : r.remaining using Nat.strongRecOn generalizing r with
  | _ n ih =>
    obtain ⟨m, next, hnext, hless, -⟩ | ⟨next, hnext, hdone⟩ | ⟨e, next, hnext, hdone⟩ :=
      r.next_cases
    · obtain ⟨ms, stop, hyields⟩ := ih _ (hn ▸ hless) next rfl
      exact ⟨m :: ms, stop, hyields.cons hnext⟩
    · exact ⟨[], none, yields_of_end hnext hdone⟩
    · exact ⟨[], some e, yields_of_error hnext hdone⟩

/-- What a reader comes to begins with what one call hands out. -/
theorem Yields.next_of_cons (h : r.Yields (m :: ms) stop) :
    ∃ next, r.next = (.ok (some m), next) ∧ next.Yields ms stop := by
  have hsplit (k : Nat) : r.next.1 = .ok (some m) ∧
      r.next.2.answers (ms.length + stop.toList.length + k) =
        ms.map (fun m => .ok (some m)) ++ stop.toList.map .error ++
          List.replicate k (.ok none) := by
    have hanswers := h k
    rw [List.length_cons, Nat.add_right_comm ms.length, Nat.add_right_comm _ 1 k] at hanswers
    exact List.cons.inj hanswers
  exact ⟨r.next.2, Prod.ext (hsplit 0).1 rfl, fun k => (hsplit k).2⟩

/-! ## Frames -/

section Frames

variable {reader : FrameReader}

theorem next_of_frame {answer : Except MessageError (Option Message)} {later : FrameReader}
    (hdone : r.done = false) (hsource : r.source = .frames reader)
    (hframe : MessageSource.nextFrame r.config.version reader = (answer, later)) :
    r.next = r.taking answer (.frames later) := by
  refine next_of_source hdone ?_
  rw [hsource]
  simp only [MessageSource.next, hframe]

end Frames

/-! ## Items -/

section Items

variable {b : BufferedSource} {xs rest : Bytes} {v : Value}

theorem next_of_item {answer : Except MessageError (Option Message)} {later : BufferedSource}
    (hdone : r.done = false) (hsource : r.source = .items b)
    (hitem : MessageSource.nextItem r.config.version r.config.limit b = (answer, later)) :
    r.next = r.taking answer (.items later) := by
  refine next_of_source hdone ?_
  rw [hsource]
  simp only [MessageSource.next, hitem]

/-- A source without octets is the end. -/
theorem yields_of_no_item (hdone : r.done = false) (hsource : r.source = .items b)
    (hb : b.Delivers []) : r.Yields [] none := by
  obtain ⟨ready, hawait, -⟩ := hb.awaitOctets
  have hitem : MessageSource.nextItem r.config.version r.config.limit b = (.ok none, ready) := by
    simp only [MessageSource.nextItem, hawait, List.isEmpty_nil, Bool.not_true]
  exact yields_of_end (next_of_item hdone hsource hitem) rfl

/-- **A whole item** yields its message, and the reader goes on behind it. -/
theorem next_of_whole_item (hdone : r.done = false) (hsource : r.source = .items b)
    (hreads : Cbor.Reads (.more .start) xs (.done v)) (hsome : xs ≠ [])
    (hlimit : xs.length ≤ r.config.limit) (hb : b.Delivers (xs ++ rest))
    (hm : Message.ofStructured r.config.version v = .ok m) :
    ∃ later, r.next = (.ok (some m), { r with source := .items later, count := r.count + 1 }) ∧
      later.Delivers rest := by
  obtain ⟨ready, hawait, hready⟩ := hb.awaitOctets
  have hany : (xs ++ rest).isEmpty = false := by simp [hsome]
  rw [hany] at hawait
  obtain ⟨hrun, hfront⟩ := hreads.run_eq rest
  have hwithin : (Cbor.State.start.front (xs ++ rest)).length ≤ r.config.limit := by
    rwa [hfront]
  obtain ⟨later, hpull, hlater⟩ := Cbor.pull_of_delivers hready hwithin
  rw [hfront, List.drop_left] at hlater
  have hitem :
      MessageSource.nextItem r.config.version r.config.limit b = (.ok (some m), later) := by
    simp only [MessageSource.nextItem, hawait, Bool.not_false, hpull, hrun,
      Cbor.Arrival.ofOutcome, MessageSource.ofArrival, hm]
    rfl
  exact ⟨later, next_of_item hdone hsource hitem, hlater⟩

/-- **An item cut short** is an error with its octets so far. -/
theorem yields_of_truncated_item {ys : Bytes} (hdone : r.done = false)
    (hsource : r.source = .items b)
    (hreads : Cbor.Reads (.more .start) (xs ++ ys) (.done v)) (hxs : xs ≠ []) (hys : ys ≠ [])
    (hlimit : xs.length ≤ r.config.limit) (hb : b.Delivers xs) :
    r.Yields [] (some (.decode ⟨xs, .cbor .truncated⟩)) := by
  obtain ⟨ready, hawait, hready⟩ := hb.awaitOctets
  have hany : xs.isEmpty = false := by simp [hxs]
  rw [hany] at hawait
  obtain ⟨hrun, hfront⟩ := hreads.run_of_cut hys
  have hwithin : (Cbor.State.start.front xs).length ≤ r.config.limit := by
    rwa [hfront]
  obtain ⟨later, hpull, -⟩ := Cbor.pull_of_delivers hready hwithin
  have hitem : MessageSource.nextItem r.config.version r.config.limit b =
      (.error (.decode ⟨xs, .cbor .truncated⟩), later) := by
    simp only [MessageSource.nextItem, hawait, Bool.not_false, hpull, hrun, hfront,
      Cbor.Arrival.ofOutcome, MessageSource.ofArrival]
    rfl
  exact yields_of_error (next_of_item hdone hsource hitem) rfl

end Items

end MessageReader

end WarcStream
