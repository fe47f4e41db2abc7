import WarcStream.Proofs.Message.Failure
import WarcStream.Proofs.Success
/-!
# Where a reader stops

A reader stops at the end of its stream or at an error: `Yields.next_of_nil`. The
errors of a reader are few (`Yields.error_cases`), and where its source can be
read to the end, `Source.Readable`, they are about the data and nothing else
(`yields_of_readable`).
-/

namespace WarcStream

open Transport

/-- An error that a reader reports of what it was sent. -/
inductive MessageError.IsContent : MessageError → Prop
  /-- A segment or an item that is no message. -/
  | decode (e : DecodeError) : IsContent (.decode e)
  /-- A segment or an item over the limit. -/
  | tooLarge (size limit : Nat) : IsContent (.frame (.tooLarge size limit))

namespace Transport.Source

variable {s : Source}

/-- A read of a source that is at its end brings nothing. -/
theorem read_of_live_nil (h : s.live = []) (room : Nat) :
    ∃ next, s.read room = (.ok [], next) := by
  unfold read
  match hscript : s.script with
  | [] => exact ⟨_, rfl⟩
  | .fault f :: rest => simp [live, hscript] at h
  | .data octets :: rest =>
    obtain rfl : octets = [] := by simpa [live, hscript] using h
    exact ⟨_, if_pos (Nat.zero_le room)⟩

end Transport.Source

/-- Nothing is waiting behind an empty buffer of a source that is at its end. -/
theorem Transport.BufferedSource.awaitOctets_of_live_nil {b : BufferedSource}
    (hempty : b.buffer = []) (h : b.source.live = []) :
    ∃ next, b.awaitOctets = (.ok false, next) := by
  obtain ⟨ended, hread⟩ := Source.read_of_live_nil h b.capacity
  have hfill : b.fill = (.ok (), { b with buffer := [], source := ended }) := by
    rw [fill, hempty, if_pos List.isEmpty_nil, hread]
  exact ⟨_, by rw [awaitOctets_eq, hfill]; rfl⟩

/-- A frame reader of a source that is at its end hands out nothing. -/
theorem FrameReader.next_of_live_nil (c : FrameConfig) {s : Source} (h : s.live = []) :
    (ofConfig c s).next.1 = .ok none := by
  let reader : FrameReader := .ofConfig c s
  have hwaits : reader.segmenter.next = (.ok none, reader.segmenter) :=
    Segmenter.next_waiting (s := reader.segmenter) List.not_mem_nil (Nat.not_lt_zero _)
  obtain ⟨ended, hread⟩ := Source.read_of_live_nil h reader.room
  have hlast : reader.next.1 = reader.segmenter.last.1 := by
    rw [next_of_end rfl hwaits hread]
    rfl
  exact hlast.trans (congrArg Prod.fst (Segmenter.last_of_waiting hwaits))

/-- **The errors of a frame reader**: its source has failed, or a run is over the limit. -/
theorem FrameReader.error_cases {r : FrameReader} {e : FrameError} (h : r.next.1 = .error e) :
    (∃ f, e = .transport f) ∨ ∃ size limit, e = .tooLarge size limit := by
  have hlast {r : FrameReader} (h : r.last.1 = .error e) : ∃ size limit, e = .tooLarge size limit :=
    have ⟨size, hsize⟩ := Segmenter.tooLarge_of_last_error h
    ⟨size, _, hsize⟩
  fun_induction FrameReader.next r with
  | case1 r hended => exact .inr (hlast h)
  | case2 r hended waiting hnext f source hread r' hint ih => exact ih h
  | case3 r hended waiting hnext f source hread r' hint =>
    cases h
    exact .inl ⟨f, rfl⟩
  | case4 r hended waiting hnext source hread => exact .inr (hlast h)
  | case5 r hended waiting hnext octets source hread hsome ih => exact ih h
  | case6 r hended answer segmenter hsome hnext =>
    obtain ⟨size, hsize⟩ := Segmenter.tooLarge_of_next_error (by rw [hnext]; exact h)
    exact .inr ⟨size, _, hsize⟩

namespace MessageSource

variable {x : MessageSource} {version : ProtocolVersion} {limit : Nat} {e : MessageError}

/-- A frame is an error of its own, or its segment is no message. -/
theorem ofFrame_error_cases {answer : Except FrameError (Option Bytes)}
    (h : ofFrame version answer = .error e) :
    (∃ e', answer = .error e' ∧ e = .frame e') ∨ e.IsContent := by
  rcases answer with e' | _ | segment
  · cases h
    exact .inl ⟨e', rfl, rfl⟩
  · cases h
  · rw [ofFrame, map_eq_error_iff, mapError_eq_error_iff] at h
    obtain ⟨reason, -, rfl⟩ := h
    exact .inr (.decode reason)

/-- What arrives instead of a message is a failure of the source, or it is about the item. -/
theorem ofArrival_error_cases {item : Bytes} {arrival : Cbor.Arrival}
    (h : ofArrival version limit item arrival = .error e) :
    e.isTransport = true ∨ e.IsContent := by
  cases arrival with
  | done v =>
    rw [ofArrival, mapError_eq_error_iff] at h
    obtain ⟨reason, -, rfl⟩ := h
    exact .inr (.decode ⟨item, reason⟩)
  | failed e' =>
    cases h
    exact .inr (.decode ⟨item, .cbor e'⟩)
  | fault f =>
    cases h
    exact .inl rfl
  | excess size =>
    cases h
    exact .inr (.tooLarge size limit)

/-- **The errors of a source of messages**: it has failed, or they are about what it brought. -/
theorem error_cases (h : (x.next version limit).1 = .error e) :
    e.isTransport = true ∨ e.IsContent := by
  cases x with
  | frames reader =>
    rw [MessageSource.next, nextFrame_eq] at h
    rcases ofFrame_error_cases h with ⟨e', hreader, rfl⟩ | hcontent
    · rcases FrameReader.error_cases hreader with ⟨f, rfl⟩ | ⟨size, limit', rfl⟩
      · exact .inl rfl
      · exact .inr (.tooLarge size limit')
    · exact .inr hcontent
  | items octets =>
    have hitem : (nextItem version limit octets).1 = .error e := h
    unfold nextItem at hitem
    split at hitem
    · cases hitem
      exact .inl rfl
    · cases hitem
    · exact ofArrival_error_cases (map_eq_error_iff.1 hitem)

end MessageSource

namespace MessageReader

variable {r next : MessageReader} {m : Message} {ms : List Message} {e : MessageError}
variable {stop : Option MessageError}

/-- A message is counted, -/
theorem count_of_message (h : r.next = (.ok (some m), next)) : next.count = r.count + 1 := by
  unfold MessageReader.next at h
  split at h
  · cases h
  · split at h
    · cases h
      rfl
    · rename_i hother _
      obtain ⟨rfl, -⟩ := Prod.mk.inj h
      exact absurd rfl (hother m)

/-- and nothing else is. -/
theorem count_of_stop (h : r.next = (stop.elim (.ok none) .error, next)) :
    next.count = r.count := by
  unfold MessageReader.next at h
  split at h
  · obtain ⟨-, rfl⟩ := Prod.mk.inj h
    rfl
  · split at h
    · cases stop <;> cases h
    · obtain ⟨-, rfl⟩ := Prod.mk.inj h
      rfl

/-- **Where a reader stops** it answers with the end or with the error. -/
theorem Yields.next_of_nil (h : r.Yields [] stop) :
    ∃ next, r.next = (stop.elim (.ok none) .error, next) ∧ next.count = r.count := by
  have hanswer : r.next.1 = stop.elim (.ok none) .error := by
    cases stop with
    | none => exact (List.cons.inj (h 1)).1
    | some e => exact (List.cons.inj (h 0)).1
  exact ⟨r.next.2, Prod.ext hanswer rfl, count_of_stop (Prod.ext hanswer rfl)⟩

/-- **A reader comes to one thing only.** -/
theorem Yields.unique {ms' : List Message} {stop' : Option MessageError} (h : r.Yields ms stop)
    (h' : r.Yields ms' stop') : ms = ms' ∧ stop = stop' := by
  -- a message is no end and no error
  have hother {stop : Option MessageError} {m : Message} :
      stop.elim (.ok none) .error ≠ (.ok (some m) : Except MessageError (Option Message)) := by
    cases stop with
    | none | some e => simp
  induction ms generalizing r ms' with
  | nil =>
    obtain ⟨next, hnext, -⟩ := h.next_of_nil
    cases ms' with
    | nil =>
      obtain ⟨next', hnext', -⟩ := h'.next_of_nil
      rw [hnext, Prod.mk.injEq] at hnext'
      refine ⟨rfl, ?_⟩
      match stop, stop', hnext'.1 with
      | none, none, _ => rfl
      | some e, some e', hstop => exact congrArg some (Except.error.inj hstop)
    | cons m' ms' =>
      obtain ⟨next', hnext', -⟩ := h'.next_of_cons
      rw [hnext, Prod.mk.injEq] at hnext'
      exact absurd hnext'.1 hother
  | cons m ms ih =>
    obtain ⟨next, hnext, hrest⟩ := h.next_of_cons
    cases ms' with
    | nil =>
      obtain ⟨next', hnext', -⟩ := h'.next_of_nil
      rw [hnext, Prod.mk.injEq] at hnext'
      exact absurd hnext'.1.symm hother
    | cons m' ms' =>
      obtain ⟨next', hnext', hrest'⟩ := h'.next_of_cons
      rw [hnext] at hnext'
      cases hnext'
      obtain ⟨rfl, rfl⟩ := ih hrest hrest'
      exact ⟨rfl, rfl⟩

/-- The errors of a reader are those of its source. -/
theorem Yields.error_cases (h : r.Yields ms (some e)) : e.isTransport = true ∨ e.IsContent := by
  induction ms generalizing r with
  | nil =>
    obtain ⟨next, hnext, -⟩ := h.next_of_nil
    unfold MessageReader.next at hnext
    split at hnext
    · cases hnext
    · split at hnext
      · cases hnext
      · rename_i hsource
        obtain ⟨rfl, -⟩ := Prod.mk.inj hnext
        exact MessageSource.error_cases (congrArg Prod.fst hsource)
  | cons m ms ih =>
    obtain ⟨next, -, hnext⟩ := h.next_of_cons
    exact ih hnext

/-- A reader of a source that is at its end yields nothing. -/
theorem yields_of_live_nil (c : MessageConfig) {s : Source} (h : s.live = []) :
    (ofConfig c s).Yields [] none := by
  cases hframing : c.format.framing? with
  | some framing =>
    let reader : FrameReader := .ofConfig (c.frames framing) s
    have hsource : (ofConfig c s).source = .frames reader := source_of_framing hframing s
    have hframe : MessageSource.nextFrame (ofConfig c s).config.version reader =
        (.ok none, reader.next.2) := by
      rw [MessageSource.nextFrame_eq, FrameReader.next_of_live_nil _ h]
      rfl
    exact yields_of_end (next_of_frame rfl hsource hframe) rfl
  | none =>
    let octets : BufferedSource := { capacity := max c.chunk 1, source := s }
    have hsource : (ofConfig c s).source = .items octets := source_of_items hframing s
    obtain ⟨ended, hawait⟩ := BufferedSource.awaitOctets_of_live_nil (b := octets) rfl h
    have hitem : MessageSource.nextItem (ofConfig c s).config.version (ofConfig c s).config.limit
        octets = (.ok none, ended) := by
      simp only [MessageSource.nextItem, hawait]
    exact yields_of_end (next_of_item rfl hsource hitem) rfl

/-- **An input that can be read**: whatever it holds, a reader stops at its end, or at an error of
what it holds. -/
theorem yields_of_readable (c : MessageConfig) {s : Source} {octets : Bytes}
    (h : s.Readable octets) :
    ∃ ms stop, (ofConfig c s).Yields ms stop ∧ ∀ e, stop = some e → e.IsContent := by
  rcases h with hs | ⟨hlive, -⟩
  · obtain ⟨hopen, -, hsource⟩ := opened_ofConfig c s
    obtain ⟨ms, stop, brought, halt, hyields, hpassage, -, hstop⟩ :=
      yields_of_opened (r := ofConfig c s) rfl hopen
    rw [hsource] at hpassage
    obtain ⟨-, -, -, -, hfailed⟩ := hpassage.of_delivers hs
    refine ⟨ms, stop, hyields, fun e he => ?_⟩
    subst he
    refine hyields.error_cases.resolve_left fun htransport => ?_
    obtain ⟨f, hf⟩ := hstop e rfl htransport
    exact hfailed f hf
  · exact ⟨[], none, yields_of_live_nil c hlive, by simp⟩

end MessageReader

end WarcStream
