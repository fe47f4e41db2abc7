import WarcStream.Proofs.Cbor.Passage
import WarcStream.Proofs.Frame.Passage
import WarcStream.Proofs.Message.Items
/-!
# What a message reader makes of a failing source

A source may fail at any octet of its stream, and may have failed to end before.
`Completes` says which messages the octets up to there complete, `reported` what
the failure is then reported as, and `Passed` all that one call of a reader can
come to on any source. A whole run is put together call by call
(`yields_of_opened`): a reader that meets a failure has handed out the messages
completed before it, and reports it (`reports_failure`).
-/

namespace WarcStream

open Transport Bytes

variable {c : MessageConfig} {framing : Framing} {octets rest : Bytes} {ms : List Message}
variable {m : Message} {f : Fault}

namespace MessageConfig

/-- **The octets complete these messages**, and the rest is behind the last of them. In frames, a
message is completed by the delimiter behind it, and each run that a delimiter closes is blank or is
a message. Otherwise an item is completed by its last octet, and the rest is an item still
unfinished. -/
def Completes (c : MessageConfig) (octets : Bytes) (ms : List Message) (rest : Bytes) : Prop :=
  match c.format.framing? with
  | some framing =>
    List.Forall₂ (fun segment m => Message.ofSegment c.version segment = .ok m)
      (solid (closedRuns framing.delimiter octets)) ms ∧ rest = openRun framing.delimiter octets
  | none =>
    ∃ items, Splits c.version c.limit octets items rest ∧ items.map Prod.snd = ms ∧
      (Cbor.State.start.run rest).1 = .unfinished

theorem completes_frames (h : c.format.framing? = some framing) :
    c.Completes octets ms rest ↔
      List.Forall₂ (fun segment m => Message.ofSegment c.version segment = .ok m)
        (solid (closedRuns framing.delimiter octets)) ms ∧
      rest = openRun framing.delimiter octets := by
  simp only [Completes, h]

theorem completes_items (h : c.format.framing? = none) :
    c.Completes octets ms rest ↔
      ∃ items, Splits c.version c.limit octets items rest ∧ items.map Prod.snd = ms ∧
        (Cbor.State.start.run rest).1 = .unfinished := by
  simp only [Completes, h]

/-- What a failure of the source is reported as, when the octets before it end with `rest`. Inside
an item, a source that says that it ended too soon is taken for one that has ended. -/
def reported (c : MessageConfig) (rest : Bytes) (f : Fault) : MessageError :=
  if c.format.framing? = none ∧ rest ≠ [] ∧ f.kind = .unexpectedEnd then
    .decode ⟨rest, .cbor .truncated⟩
  else .ofFault f

end MessageConfig

/-! ## One call -/

namespace MessageSource

variable {x : MessageSource} {b : BufferedSource} {reader : FrameReader}

/-- The octets that have been read and not been handed out. -/
def held : MessageSource → Bytes
  | .frames reader => reader.segmenter.buffer
  | .items b => b.buffer

/-- The source of a reader that is still to read. -/
inductive Opened (c : MessageConfig) : MessageSource → Prop
  | frames {reader : FrameReader} :
      c.format.framing? = some reader.segmenter.framing → reader.Open → Opened c (.frames reader)
  | items {b : BufferedSource} :
      c.format.framing? = none → 0 < b.capacity → Opened c (.items b)

/-- The source has ended, and there is nothing but its octets left to hand out. -/
inductive Closed : MessageSource → Prop
  | frames {reader : FrameReader} : reader.ended = true → Closed (.frames reader)

/-- **All that one call can come to** on any source, with the octets brought meanwhile. -/
inductive Passed (c : MessageConfig) (x : MessageSource) :
    Except MessageError (Option Message) → Bytes → MessageSource → Prop
  /-- The next message that the octets complete is handed out. -/
  | message {m : Message} {brought : Bytes} {later : MessageSource} :
      x.source.Passage brought none later.source → later.Opened c →
      (∀ more ms rest, c.Completes (later.held ++ more) ms rest →
        c.Completes (x.held ++ brought ++ more) (m :: ms) rest) →
      Passed c x (.ok (some m)) brought later
  /-- What the source brought is at fault. -/
  | malformed {e : MessageError} {brought : Bytes} {later : MessageSource} :
      x.source.Passage brought none later.source → e.isTransport = false →
      Passed c x (.error e) brought later
  /-- The source ended. -/
  | ended {answer : Except MessageError (Option Message)} {brought : Bytes}
      {later : MessageSource} :
      x.source.Passage brought (some .ended) later.source →
      (∀ m, answer = .ok (some m) → later.Closed) →
      (∀ e, answer = .error e → e.isTransport = false) → Passed c x answer brought later
  /-- The source failed when the octets completed no other message. -/
  | failed {f : Fault} {rest brought : Bytes} {later : MessageSource} :
      x.source.Passage brought (some (.failed f)) later.source →
      c.Completes (x.held ++ brought) [] rest →
      Passed c x (.error (c.reported rest f)) brought later

theorem isTransport_tooLarge (size limit : Nat) :
    (MessageError.frame (.tooLarge size limit)).isTransport = false := rfl

theorem isTransport_decode (e : DecodeError) : (MessageError.decode e).isTransport = false := rfl

/-- An answer at the end of a source is about its octets. -/
theorem isTransport_of_frame {version : ProtocolVersion} {answer : Except FrameError (Option Bytes)}
    {e : MessageError} (h : ∀ e, answer = .error e → ∃ size limit, e = .tooLarge size limit)
    (he : ofFrame version answer = .error e) : e.isTransport = false := by
  match answer, h with
  | .ok none, _ => cases he
  | .ok (some segment), _ =>
    rw [ofFrame] at he
    cases hsegment : Message.ofSegment version segment with
    | ok m =>
      rw [hsegment] at he
      cases he
    | error e' =>
      rw [hsegment] at he
      cases he
      rfl
  | .error e', h =>
    obtain ⟨size, limit, rfl⟩ := h e' rfl
    cases he
    rfl

/-- The message of a segment is none, or it is completed with the segment. -/
theorem passed_of_segment {segment brought : Bytes} {later : FrameReader}
    (hframing : c.format.framing? = some reader.segmenter.framing)
    (hpassage : reader.source.Passage brought none later.source)
    (hsheds : Sheds reader.segmenter.framing.delimiter (reader.segmenter.buffer ++ brought)
      [segment] later.segmenter.buffer)
    (hopen : later.Open) (hsame : later.segmenter.framing = reader.segmenter.framing) :
    Passed c (.frames reader)
      (((Message.ofSegment c.version segment).mapError .decode).map some) brought
      (.frames later) := by
  cases hsegment : Message.ofSegment c.version segment with
  | error e => exact .malformed hpassage (isTransport_decode e)
  | ok m =>
    refine .message hpassage (.frames (by rw [hsame, hframing]) hopen) fun more ms rest hrest => ?_
    rw [MessageConfig.completes_frames hframing] at hrest ⊢
    obtain ⟨hruns, hbehind⟩ := hsheds more
    obtain ⟨hsegments, rfl⟩ := hrest
    refine ⟨?_, hbehind.symm⟩
    have hall : solid (closedRuns reader.segmenter.framing.delimiter
        ((MessageSource.frames reader).held ++ brought ++ more)) =
        segment :: solid (closedRuns reader.segmenter.framing.delimiter
          ((MessageSource.frames later).held ++ more)) := hruns
    rw [hall]
    exact .cons hsegment hsegments

theorem passed_nextFrame (hframing : c.format.framing? = some reader.segmenter.framing)
    (hopen : reader.Open) :
    ∃ brought, Passed c (.frames reader) (nextFrame c.version reader).1 brought
      (.frames (nextFrame c.version reader).2) := by
  obtain ⟨brought, hpassed⟩ := reader.passed_next hopen
  refine ⟨brought, ?_⟩
  rw [nextFrame_eq]
  generalize reader.next = call at hpassed
  obtain ⟨answer, later⟩ := call
  dsimp only at hpassed ⊢
  cases hpassed with
  | segment hpassage hsheds hlater hsame =>
    exact passed_of_segment hframing hpassage hsheds hlater hsame
  | tooLarge hpassage => exact .malformed hpassage (isTransport_tooLarge _ _)
  | @failed f rest _ _ hpassage hsheds hnotMem =>
    have hreported : c.reported rest f = .frame (.transport f) := by
      rw [MessageConfig.reported, if_neg (by simp [hframing])]
      rfl
    rw [ofFrame, ← hreported]
    refine .failed hpassage ((MessageConfig.completes_frames hframing).2 ?_)
    obtain ⟨hruns, hbehind⟩ := hsheds []
    rw [List.append_nil, List.append_nil, closedRuns_of_notMem hnotMem] at hruns
    rw [List.append_nil, List.append_nil, openRun_of_notMem hnotMem] at hbehind
    have hnone : solid (closedRuns reader.segmenter.framing.delimiter
        ((MessageSource.frames reader).held ++ brought)) = [] := hruns
    rw [hnone]
    exact ⟨.nil, hbehind.symm⟩
  | ended hpassage hended hanswer =>
    exact .ended hpassage (fun _ _ => .frames hended) fun e he => isTransport_of_frame hanswer he

/-! ## One item -/

/-- What an item within the limit comes to is malformed, or it is the message at the front. -/
theorem passed_of_item {brought item : Bytes} {later : BufferedSource}
    (hframing : c.format.framing? = none) (hcap : 0 < later.capacity)
    (hpassage : b.source.Passage brought none later.source)
    (hbalance : b.buffer ++ brought = item ++ later.buffer)
    (hfinished : (Cbor.State.start.run item).1 ≠ .unfinished) (hitem : itemAt item = item)
    (hlimit : item.length ≤ c.limit) :
    Passed c (.items b)
      ((ofArrival c.version c.limit item (.ofOutcome (Cbor.State.start.run item).1)).map some)
      brought (.items later) := by
  have harrival := ofArrival_ofOutcome c.version c.limit item
  rw [hitem] at harrival
  rw [harrival]
  cases hfront : Message.atFront c.version item with
  | error reason => exact .malformed hpassage (isTransport_decode ⟨item, reason⟩)
  | ok m =>
    refine .message hpassage (.items hframing hcap) fun more ms rest hrest => ?_
    rw [MessageConfig.completes_items hframing] at hrest ⊢
    obtain ⟨items, hsplits, hmessages, hunfinished⟩ := hrest
    -- what is behind the item makes no difference to it
    obtain ⟨hrun, hsame⟩ := Cbor.State.run_append (later.buffer ++ more) hfinished
    have hat : itemAt (item ++ (later.buffer ++ more)) = item := hsame.trans hitem
    have hbehind : behindItem (item ++ (later.buffer ++ more)) = later.buffer ++ more := by
      rw [behindItem, hat, List.drop_left]
    have hmessage : Message.atFront c.version (item ++ (later.buffer ++ more)) = .ok m := by
      rw [← hfront, Message.atFront, Message.atFront, hrun]
    have hwhole : (MessageSource.items b).held ++ brought ++ more =
        item ++ (later.buffer ++ more) := by
      rw [show (MessageSource.items b).held = b.buffer from rfl, hbalance, List.append_assoc]
    have hcons : Splits c.version c.limit (item ++ (later.buffer ++ more))
        ((itemAt (item ++ (later.buffer ++ more)), m) :: items) rest := by
      refine .cons (by rwa [hat]) hmessage ?_
      rw [hbehind]
      exact hsplits
    refine ⟨_, hwhole ▸ hcons, ?_, hunfinished⟩
    rw [List.map_cons, hmessages]

theorem passed_nextItem (hframing : c.format.framing? = none) (hcap : 0 < b.capacity) :
    ∃ brought, Passed c (.items b) (nextItem c.version c.limit b).1 brought
      (.items (nextItem c.version c.limit b).2) := by
  have hcompletes {octets rest : Bytes} (h : (Cbor.State.start.run rest).1 = .unfinished)
      (hrest : rest = octets) : c.Completes octets [] rest :=
    (MessageConfig.completes_items hframing).2 ⟨[], hrest ▸ .nil _, rfl, h⟩
  rcases BufferedSource.awaitOctets_cases hcap with ⟨ready, hawait, hsome, hready⟩ |
    ⟨ready, hawait, hready⟩ | ⟨f, ready, hawait, -, hready⟩
  · -- there are octets, and an item begins with them
    obtain ⟨arrival, item, later, hpull, hpulled, hlimit⟩ :=
      Cbor.pulled_pull c.limit (hready.capacity_eq ▸ hcap)
    have hnext : nextItem c.version c.limit b =
        ((ofArrival c.version c.limit item arrival).map some, later) := by
      simp only [nextItem, hawait, hpull]
    rw [hnext]
    cases hpulled with
    | outcome hfinished hall hpassage =>
      have hboth := hready.trans hpassage
      obtain ⟨brought, hbrought, hbalance⟩ := hboth.balance
      exact ⟨brought, passed_of_item hframing (hboth.capacity_eq ▸ hcap) hbrought hbalance hfinished
        hall hlimit⟩
    | ended _ hpassage =>
      obtain ⟨brought, hbrought, -⟩ := (hready.trans hpassage).handed_eq (by simp)
      refine ⟨brought, .ended hbrought ?_ ?_⟩
      · intro m hm
        cases hm
      · intro e he
        cases he
        rfl
    | @fault _ _ f hunfinished hpassage =>
      obtain ⟨brought, hbrought, hitem⟩ := (hready.trans hpassage).handed_eq (by simp)
      have hnonempty : item ≠ [] := by
        obtain ⟨more, -, hmore⟩ := hpassage.handed_eq (by simp)
        rw [hmore]
        exact List.append_ne_nil_of_left_ne_nil hsome more
      have hreported : (ofArrival c.version c.limit item (.ofShortfall (.fault f))).map some =
          .error (c.reported item f) := by
        by_cases hkind : f.kind = .unexpectedEnd
        · rw [MessageConfig.reported, if_pos ⟨hframing, hnonempty, hkind⟩, Cbor.Arrival.ofShortfall,
            if_pos hkind]
          rfl
        · rw [MessageConfig.reported, if_neg (by simp [hkind]), Cbor.Arrival.ofShortfall,
            if_neg hkind]
          rfl
      simp only [hreported]
      exact ⟨brought, .failed hbrought (hcompletes hunfinished hitem)⟩
    | excess _ _ _ hpassage =>
      obtain ⟨brought, hbrought, -⟩ := (hready.trans hpassage).balance
      exact ⟨brought, .malformed hbrought (isTransport_tooLarge _ _)⟩
  · have hnext : nextItem c.version c.limit b = (.ok none, ready) := by
      simp only [nextItem, hawait]
    obtain ⟨brought, hbrought, -⟩ := hready.handed_eq (by simp)
    rw [hnext]
    refine ⟨brought, .ended hbrought ?_ ?_⟩
    · intro m hm
      cases hm
    · intro e he
      cases he
  · have hnext : nextItem c.version c.limit b = (.error (.ofFault f), ready) := by
      simp only [nextItem, hawait]
    obtain ⟨brought, hbrought, hnone⟩ := hready.handed_eq (by simp)
    have hreported : c.reported [] f = .ofFault f := by
      rw [MessageConfig.reported, if_neg (by simp)]
    rw [hnext, ← hreported]
    exact ⟨brought, .failed hbrought (hcompletes (by rw [Cbor.State.run_nil]) hnone)⟩

/-- **One call on any source.** -/
theorem passed_next (h : x.Opened c) :
    ∃ brought, Passed c x (x.next c.version c.limit).1 brought
      (x.next c.version c.limit).2 := by
  cases h with
  | frames hframing hopen => exact passed_nextFrame hframing hopen
  | items hframing hcap => exact passed_nextItem hframing hcap

/-- When the source has ended, no more reads are made of it. -/
theorem next_of_closed (h : x.Closed) (version : ProtocolVersion) (limit : Nat) :
    ∃ answer later, x.next version limit = (answer, later) ∧ later.Closed ∧
      later.source = x.source ∧ ∀ e, answer = .error e → e.isTransport = false := by
  cases h with
  | @frames reader hended =>
    have hnext : nextFrame version reader = (ofFrame version reader.last.1, reader.last.2) := by
      rw [nextFrame_eq, FrameReader.next_of_ended hended]
    refine ⟨ofFrame version reader.last.1, .frames reader.last.2, ?_, .frames hended, rfl, ?_⟩
    · simp only [MessageSource.next, hnext]
    · intro e he
      refine isTransport_of_frame (fun e' he' => ?_) he
      obtain ⟨size, hsize⟩ := Segmenter.tooLarge_of_last_error he'
      exact ⟨size, _, hsize⟩

end MessageSource

/-! ## A whole run -/

namespace MessageReader

variable {r : MessageReader}

/-- A reader whose source has ended makes no more reads, and meets no failure. -/
theorem yields_of_closed (hdone : r.done = false) (hclosed : r.source.Closed) :
    ∃ ms stop, r.Yields ms stop ∧
      (r.after (ms.length + 1)).source.source = r.source.source ∧
      ∀ e, stop = some e → e.isTransport = false := by
  -- along the messages, each of which leaves less to come
  induction hn : r.remaining using Nat.strongRecOn generalizing r with
  | _ n ih =>
    obtain ⟨answer, later, hanswer, hlater, hsource, herror⟩ :=
      MessageSource.next_of_closed hclosed r.config.version r.config.limit
    have hnext := next_of_source hdone hanswer
    match answer, herror with
    | .error e, herror =>
      refine ⟨[], some e, yields_of_error hnext rfl, ?_, ?_⟩
      · simp only [List.length_nil, after, hnext]
        exact hsource
      · intro e' he
        cases he
        exact herror e rfl
    | .ok none, _ =>
      refine ⟨[], none, yields_of_end hnext rfl, ?_, by simp⟩
      simp only [List.length_nil, after, hnext]
      exact hsource
    | .ok (some m), _ =>
      have hless := hn ▸ remaining_next_lt hnext
      obtain ⟨ms, stop, hyields, hlast, hstop⟩ :=
        ih _ hless (r := { r with source := later, count := r.count + 1 }) hdone hlater rfl
      refine ⟨m :: ms, stop, hyields.cons hnext, ?_, hstop⟩
      rw [List.length_cons, after, hnext]
      exact hlast.trans hsource

/-- **A whole run** on any source: the octets that the source brought, what halted it, and what was
handed out by then. -/
theorem yields_of_opened (hdone : r.done = false) (hopen : r.source.Opened r.config) :
    ∃ ms stop brought halt, r.Yields ms stop ∧
      r.source.source.Passage brought halt (r.after (ms.length + 1)).source.source ∧
      (∀ f, halt = some (.failed f) → ∃ rest,
        r.config.Completes (r.source.held ++ brought) ms rest ∧
          stop = some (r.config.reported rest f)) ∧
      ∀ e, stop = some e → e.isTransport = true → ∃ f, halt = some (.failed f) := by
  induction hn : r.remaining using Nat.strongRecOn generalizing r with
  | _ n ih =>
    obtain ⟨brought, hpassed⟩ := MessageSource.passed_next hopen
    generalize hcall : r.source.next r.config.version r.config.limit = call at hpassed
    obtain ⟨answer, later⟩ := call
    have hnext := next_of_source hdone hcall
    dsimp only at hpassed
    cases hpassed with
    | message hpassage hlater hcompletes =>
      have hless := hn ▸ remaining_next_lt hnext
      obtain ⟨ms, stop, more, halt, hyields, hmore, hfailed, hstop⟩ :=
        ih _ hless (r := { r with source := later, count := r.count + 1 }) hdone hlater rfl
      refine ⟨_ :: ms, stop, brought ++ more, halt, hyields.cons hnext, ?_, ?_, hstop⟩
      · rw [List.length_cons, after, hnext]
        exact hpassage.trans hmore
      · intro f hf
        obtain ⟨rest, hrest, hreported⟩ := hfailed f hf
        refine ⟨rest, ?_, hreported⟩
        rw [← List.append_assoc]
        exact hcompletes more ms rest hrest
    | @malformed e _ _ hpassage hkind =>
      refine ⟨[], some e, brought, none, yields_of_error hnext rfl, ?_, by simp, ?_⟩
      · simp only [List.length_nil, after, hnext]
        exact hpassage
      · intro e' he htransport
        cases he
        rw [hkind] at htransport
        cases htransport
    | @failed f rest _ _ hpassage hcompletes =>
      refine ⟨[], _, brought, some (.failed f), yields_of_error hnext rfl, ?_, ?_, ?_⟩
      · simp only [List.length_nil, after, hnext]
        exact hpassage
      · intro g hg
        cases hg
        exact ⟨rest, hcompletes, rfl⟩
      · exact fun _ _ _ => ⟨f, rfl⟩
    | ended hpassage hclosed hkind =>
      match answer, hclosed, hkind with
      | .error e, _, hkind =>
        refine ⟨[], some e, brought, some .ended, yields_of_error hnext rfl, ?_, by simp, ?_⟩
        · simp only [List.length_nil, after, hnext]
          exact hpassage
        · intro e' he htransport
          cases he
          rw [hkind e rfl] at htransport
          cases htransport
      | .ok none, _, _ =>
        refine ⟨[], none, brought, some .ended, yields_of_end hnext rfl, ?_, by simp, by simp⟩
        simp only [List.length_nil, after, hnext]
        exact hpassage
      | .ok (some m), hclosed, _ =>
        -- the octets at the end are handed out without another read
        obtain ⟨ms, stop, hyields, hlast, hstop⟩ :=
          yields_of_closed (r := { r with source := later, count := r.count + 1 }) hdone
            (hclosed m rfl)
        refine ⟨m :: ms, stop, brought, some .ended, hyields.cons hnext, ?_, by simp, ?_⟩
        · rw [List.length_cons, after, hnext]
          exact hlast ▸ hpassage
        · intro e he htransport
          rw [hstop e he] at htransport
          cases htransport

/-- A reader with nothing read yet is still to read. -/
theorem opened_ofConfig (c : MessageConfig) (s : Source) :
    (ofConfig c s).source.Opened c ∧ (ofConfig c s).source.held = [] ∧
      (ofConfig c s).source.source = s := by
  cases hframing : c.format.framing? with
  | some framing =>
    simp only [ofConfig, hframing]
    refine ⟨.frames hframing ⟨Segmenter.searched_of_zero rfl, ?_, rfl⟩, rfl, rfl⟩
    exact Nat.le_max_right c.chunk 1
  | none =>
    simp only [ofConfig, hframing]
    exact ⟨.items hframing (Nat.le_max_right c.chunk 1), rfl, rfl⟩

/-- **A failing source.** Whatever the format and the limits, and however the source delivers,
fails and ends, a reader makes reads up to one that halts it, and hands out what they brought. If
that read failed, then the reader has handed out the messages that the octets before it complete,
and reports the failure, with its kind; but if the failure is an end that came too soon, and it came
inside an item, then the item is reported as cut short. If the reader reports a failure of the
source, then it met one: an end of the stream is never reported as such. -/
theorem reports_failure (c : MessageConfig) (s : Source) :
    ∃ ms stop brought halt, (ofConfig c s).Yields ms stop ∧
      s.Passage brought halt ((ofConfig c s).after (ms.length + 1)).source.source ∧
      (∀ f, halt = some (.failed f) →
        (∃ before, s.script = before ++
            .fault f :: ((ofConfig c s).after (ms.length + 1)).source.source.script ∧
          octetsOf before = brought ∧ ∀ d ∈ before, d.IsQuiet) ∧
        ∃ rest, c.Completes brought ms rest ∧
          ((c.format = .cborSequence ∧ rest ≠ [] ∧ f.kind = .unexpectedEnd ∧
              stop = some (.decode ⟨rest, .cbor .truncated⟩)) ∨
            (¬ (c.format = .cborSequence ∧ rest ≠ [] ∧ f.kind = .unexpectedEnd) ∧
              ∃ e, stop = some e ∧ e = .ofFault f ∧ e.isTransport = true ∧
                e.isDecode = false))) ∧
      ∀ e, stop = some e → e.isTransport = true → ∃ f, halt = some (.failed f) ∧ e = .ofFault f := by
  obtain ⟨hopen, hheld, hsource⟩ := opened_ofConfig c s
  obtain ⟨ms, stop, brought, halt, hyields, hpassage, hfailed, hstop⟩ :=
    yields_of_opened (r := ofConfig c s) rfl hopen
  have hitems : c.format.framing? = none ↔ c.format = .cborSequence := by
    cases c.format <;> simp [StreamFormat.framing?]
  rw [hsource] at hpassage
  refine ⟨ms, stop, brought, halt, hyields, hpassage, fun f hf => ⟨?_, ?_⟩, fun e he htransport => ?_⟩
  · subst hf
    exact hpassage.script_of_failed
  · obtain ⟨rest, hcompletes, hreported⟩ := hfailed f hf
    rw [hheld, List.nil_append] at hcompletes
    refine ⟨rest, hcompletes, ?_⟩
    by_cases hcut : c.format = .cborSequence ∧ rest ≠ [] ∧ f.kind = .unexpectedEnd
    · have hreport : (ofConfig c s).config.reported rest f = .decode ⟨rest, .cbor .truncated⟩ :=
        if_pos ⟨hitems.2 hcut.1, hcut.2⟩
      exact .inl ⟨hcut.1, hcut.2.1, hcut.2.2, by rw [hreported, hreport]⟩
    · have hreport : (ofConfig c s).config.reported rest f = .ofFault f :=
        if_neg fun h => hcut ⟨hitems.1 h.1, h.2⟩
      exact .inr ⟨hcut, _, by rw [hreported, hreport], rfl, rfl, rfl⟩
  · obtain ⟨f, hf⟩ := hstop e he htransport
    refine ⟨f, hf, ?_⟩
    obtain ⟨rest, -, hreported⟩ := hfailed f hf
    rw [he] at hreported
    obtain rfl := Option.some.inj hreported
    unfold MessageConfig.reported at htransport ⊢
    split at htransport
    · cases htransport
    · rename_i hcut
      rw [if_neg hcut]

/-- A source that says that it ended too soon, with one octet before: as an item it is cut short, as
a line it is a failure. -/
example :
    (ofConfig { format := .cborSequence }
          ⟨[.data [0xa1], .fault (.plain .unexpectedEnd)], 0⟩).next.1 =
        .error (.decode ⟨[0xa1], .cbor .truncated⟩) ∧
      (ofConfig { format := .jsonLines }
          ⟨[.data [0xa1], .fault (.plain .unexpectedEnd)], 0⟩).next.1 =
        .error (.ofFault (.plain .unexpectedEnd)) := by
  decide +kernel

end MessageReader

end WarcStream
