import WarcStream.Proofs.Frame.Conservation
/-!
# What a frame reader holds

A reader reads only while what it holds of the next segment is within the limit, and no
more at a time than its room, so its buffer never holds more than the two together:
`Bounded`, which is kept from one turn of the loop inside a call to the next
(`Bounded.of_mem_turns`) and from one call to the next (`Bounded.next`). A run over the
limit that no delimiter closes puts an end to the reading (`Bounded.source_after`).
`WithinLimit` is all of this about one call, and `Bounded.withinLimit` says it of the next
call of every bounded reader: of every call, since a new reader is one
(`bounded_ofConfig`) and calls keep it so (`Bounded.after`).
-/

namespace WarcStream

open Bytes Transport

namespace Segmenter

variable {s waiting : Segmenter} {c : FrameConfig} {octets : Bytes}

/-- A segmenter waits only with what is within the limit. -/
theorem length_le_of_waiting (h : s.next = (.ok none, waiting)) :
    waiting.buffer.length ≤ s.limit := by
  fun_induction next s with
  | case1 => cases h
  | case2 s hcut waiting hfits =>
    obtain ⟨-, rfl⟩ := Prod.mk.inj h
    exact Nat.not_lt.1 hfits
  | case3 s segment after hcut rest hblank ih => exact ih h
  | case4 => cases h
  | case5 => cases h

/-- **What a segmenter holds is bounded** by its limit and the room for one read. -/
structure Bounded (s : Segmenter) (c : FrameConfig) : Prop where
  searched : s.Searched
  framing_eq : s.framing = c.framing
  limit_eq : s.limit = c.limit
  length_le : s.buffer.length ≤ c.limit + c.room

/-- Asking for a segment adds nothing to the buffer, -/
theorem Bounded.next (h : s.Bounded c) : s.next.2.Bounded c :=
  ⟨h.searched.next.2.2, s.framing_next.trans h.framing_eq, s.limit_next.trans h.limit_eq,
    Nat.le_trans s.length_next_le h.length_le⟩

/-- and neither does it at the end of the stream. -/
theorem Bounded.last (h : s.Bounded c) : s.last.2.Bounded c := by
  refine ⟨h.searched.last.2.2, s.framing_last.trans h.framing_eq,
    s.limit_last.trans h.limit_eq, ?_⟩
  rcases s.last_eq_or with hlast | hlast
  · rw [hlast]
    exact h.next.length_le
  · rw [hlast]
    exact Nat.zero_le _

/-- **Octets** may come when the segmenter waits, no more than there is room for. -/
theorem Bounded.feed (h : s.Bounded c) (hnext : s.next = (.ok none, waiting))
    (hlen : octets.length ≤ c.room) : (waiting.feed octets).Bounded c := by
  have hwaiting := h.next
  rw [hnext] at hwaiting
  have hfits : waiting.buffer.length ≤ c.limit := by
    rw [← h.limit_eq]
    exact length_le_of_waiting hnext
  refine ⟨hwaiting.searched.feed octets, hwaiting.framing_eq, hwaiting.limit_eq, ?_⟩
  rw [Segmenter.feed, List.length_append]
  omega

end Segmenter

namespace FrameReader

variable {r t : FrameReader} {c : FrameConfig} {segment : Bytes} {size max : Nat}

/-- The reader at each turn of the loop inside a call: as it is at first, and then behind each read
that the call goes on from. -/
def turns (r : FrameReader) : List FrameReader :=
  if r.ended then [r]
  else
    match r.segmenter.next with
    | (.ok none, waiting) =>
      match _h : r.source.read r.room with
      | (.error f, source) =>
        if f.isInterruption then r :: turns { r with segmenter := waiting, source } else [r]
      | (.ok octets, source) =>
        if _hnone : octets = [] then [r, r.close waiting source]
        else r :: turns { r with segmenter := waiting.feed octets, source }
    | _ => [r]
termination_by r.source.weight
decreasing_by
  · exact Source.read_weight_lt_of_error _h
  · exact Source.read_weight_lt_of_ok _h _hnone

/-! ## The bound -/

/-- **What a reader holds is bounded** by its limit and the room for one read. -/
structure Bounded (r : FrameReader) (c : FrameConfig) : Prop where
  segmenter : r.segmenter.Bounded c
  room_eq : r.room = c.room

/-- **From turn to turn** the bound is kept, and the call comes to the same. -/
theorem Bounded.of_mem_turns (h : r.Bounded c) (ht : t ∈ r.turns) :
    t.Bounded c ∧ t.next = r.next := by
  fun_induction turns r with
  | case1 r hended =>
    obtain rfl := List.mem_singleton.1 ht
    exact ⟨h, rfl⟩
  | case2 r hended waiting hnext f source hread hint ih =>
    rcases List.mem_cons.1 ht with rfl | ht
    · exact ⟨h, rfl⟩
    · have hwaiting := h.segmenter.next
      rw [hnext] at hwaiting
      obtain ⟨hbounded, hcall⟩ := ih ⟨hwaiting, h.room_eq⟩ ht
      rw [next_of_interruption (by simpa using hended) hnext hread hint]
      exact ⟨hbounded, hcall⟩
  | case3 r hended waiting hnext f source hread hint =>
    obtain rfl := List.mem_singleton.1 ht
    exact ⟨h, rfl⟩
  | case4 r hended waiting hnext source hread =>
    rcases List.mem_cons.1 ht with rfl | ht
    · exact ⟨h, rfl⟩
    · obtain rfl := List.mem_singleton.1 ht
      have hwaiting := h.segmenter.next
      rw [hnext] at hwaiting
      rw [next_of_end (by simpa using hended) hnext hread]
      exact ⟨⟨hwaiting, h.room_eq⟩, next_of_ended rfl⟩
  | case5 r hended waiting hnext octets source hread hsome ih =>
    rcases List.mem_cons.1 ht with rfl | ht
    · exact ⟨h, rfl⟩
    · have hlen : octets.length ≤ c.room := by
        rw [← h.room_eq]
        exact Source.length_read_le hread
      obtain ⟨hbounded, hcall⟩ := ih ⟨h.segmenter.feed hnext hlen, h.room_eq⟩ ht
      rw [next_of_octets (by simpa using hended) hnext hread hsome]
      exact ⟨hbounded, hcall⟩
  | case6 r hended hsome =>
    obtain rfl := List.mem_singleton.1 ht
    exact ⟨h, rfl⟩

/-- **The last turn** of a call asks the segmenter once more, and answers what it answers, unless the
source fails. -/
theorem exists_last_turn (r : FrameReader) :
    ∃ t ∈ r.turns, r.next.2.room = t.room ∧
      ((∃ step, t.segmenter.step step = (some r.next.1, r.next.2.segmenter)) ∨
        ∃ f, r.next.1 = .error (.transport f) ∧ r.next.2.segmenter = t.segmenter.next.2) := by
  fun_induction turns r with
  | case1 r hended =>
    rw [next_of_ended hended]
    exact ⟨r, List.mem_singleton_self r, rfl, .inl ⟨.last, rfl⟩⟩
  | case2 r hended waiting hnext f source hread hint ih =>
    rw [next_of_interruption (by simpa using hended) hnext hread hint]
    obtain ⟨t, ht, hturn⟩ := ih
    exact ⟨t, List.mem_cons_of_mem r ht, hturn⟩
  | case3 r hended waiting hnext f source hread hint =>
    rw [next_of_failure (by simpa using hended) hnext hread hint]
    exact ⟨r, List.mem_singleton_self r, rfl, .inr ⟨f, rfl, by rw [hnext]⟩⟩
  | case4 r hended waiting hnext source hread =>
    rw [next_of_end (by simpa using hended) hnext hread]
    exact ⟨r.close waiting source, List.mem_cons_of_mem r (List.mem_singleton_self _), rfl,
      .inl ⟨.last, rfl⟩⟩
  | case5 r hended waiting hnext octets source hread hsome ih =>
    rw [next_of_octets (by simpa using hended) hnext hread hsome]
    obtain ⟨t, ht, hturn⟩ := ih
    exact ⟨t, List.mem_cons_of_mem r ht, hturn⟩
  | case6 r hended hsome =>
    have hanswer : r.segmenter.next.1 ≠ .ok none := fun h =>
      hsome r.segmenter.next.2 (Prod.ext h rfl)
    rw [next_of_answer rfl hanswer]
    exact ⟨r, List.mem_singleton_self r, rfl, .inl ⟨.next, rfl⟩⟩

/-- **From call to call** the bound is kept, -/
theorem Bounded.next (h : r.Bounded c) : r.next.2.Bounded c := by
  obtain ⟨t, ht, hroom, hturn⟩ := r.exists_last_turn
  obtain ⟨hsegmenter, hsame⟩ := (h.of_mem_turns ht).1
  refine ⟨?_, hroom.trans hsame⟩
  rcases hturn with ⟨step, hstep⟩ | ⟨f, -, hlater⟩
  · cases step with
    | feed octets => cases hstep
    | setLimit limit => cases hstep
    | next =>
      rw [← (Prod.mk.inj hstep).2]
      exact hsegmenter.next
    | last =>
      rw [← (Prod.mk.inj hstep).2]
      exact hsegmenter.last
  · rw [hlater]
    exact hsegmenter.next

/-- and so by any number of calls. -/
theorem Bounded.after (h : r.Bounded c) (n : Nat) : (r.after n).Bounded c := by
  induction n generalizing r with
  | zero => exact h
  | succ n ih => exact ih h.next

theorem bounded_ofConfig (c : FrameConfig) (source : Source) :
    (ofConfig c source).Bounded c :=
  ⟨⟨Segmenter.searched_of_zero rfl, rfl, rfl, Nat.zero_le _⟩, rfl⟩

/-! ## What is handed out and what is refused -/

/-- What a call answers has the account of its last turn, unless the source fails. -/
theorem Bounded.exists_accounted (h : r.Bounded c) :
    (∃ f, r.next.1 = .error (.transport f)) ∨
      ∃ t ∈ r.turns, ∃ step : SegmenterStep, step.octets = [] ∧ SegmenterCall.Accounted
        ⟨step, t.segmenter, some r.next.1, r.next.2.segmenter⟩ := by
  obtain ⟨t, ht, -, ⟨step, hstep⟩ | ⟨f, hanswer, -⟩⟩ := r.exists_last_turn
  · have haccount := Segmenter.accounted_step (h.of_mem_turns ht).1.segmenter.searched step
    rw [hstep] at haccount
    cases step with
    | feed octets => cases hstep
    | next | last | setLimit => exact .inr ⟨t, ht, _, rfl, haccount⟩
  · exact .inl ⟨f, hanswer⟩

/-- **A segment** that is handed out is within the limit. -/
theorem Bounded.length_le_of_segment (h : r.Bounded c)
    (hanswer : r.next.1 = .ok (some segment)) : segment.length ≤ c.limit := by
  obtain ⟨f, hf⟩ | ⟨t, ht, step, -, haccount⟩ := h.exists_accounted
  · rw [hf] at hanswer
    cases hanswer
  · obtain ⟨_, _, -, -, htakes⟩ := haccount.removed_eq
    rw [← (h.of_mem_turns ht).1.segmenter.limit_eq]
    exact htakes.length_le (congrArg some hanswer)

/-- A closed run of this size was refused, and is gone. -/
def Drops (r : FrameReader) (d : UInt8) (size : Nat) : Prop :=
  ∃ t ∈ r.turns, ∃ blanks run,
    t.segmenter.buffer = closing d blanks ++ run ++ d :: r.next.2.segmenter.buffer ∧
      (∀ blank ∈ blanks, allBlank blank = true ∧ d ∉ blank) ∧ d ∉ run ∧ run.length = size

/-- A run of this size was refused that no delimiter closes, and is still there. -/
def Withholds (r : FrameReader) (d : UInt8) (size : Nat) : Prop :=
  d ∉ r.next.2.segmenter.buffer ∧ r.next.2.buffered = size

/-- **What is refused** is over the limit. -/
theorem Bounded.tooLarge_cases (h : r.Bounded c)
    (hanswer : r.next.1 = .error (.tooLarge size max)) :
    max = c.limit ∧ c.limit < size ∧
      (r.Drops c.framing.delimiter size ∨ r.Withholds c.framing.delimiter size) := by
  obtain ⟨f, hf⟩ | ⟨t, ht, step, hoctets, haccount⟩ := h.exists_accounted
  · rw [hf] at hanswer
    cases hanswer
  · obtain ⟨blanks, piece, hremoved, hblanks, htakes⟩ := haccount.removed_eq
    have hturn := (h.of_mem_turns ht).1.segmenter
    have hbalance := haccount.balance
    rw [hremoved, SegmenterCall.held, hoctets, List.append_nil] at hbalance
    rw [← hturn.limit_eq, ← hturn.framing_eq]
    obtain ⟨hmax, hlarge, ⟨run, rfl, hrun, hsize⟩ | hrest⟩ :=
      htakes.tooLarge_cases (congrArg some hanswer)
    · refine ⟨hmax, hlarge, .inl ⟨t, ht, blanks, run, ?_, hblanks, hrun, hsize⟩⟩
      simpa using hbalance
    · exact ⟨hmax, hlarge, .inr hrest⟩

/-! ## Where the reading stops -/

/-- A run over the limit that no delimiter closes is handed over by no call, and none reads on. -/
theorem Bounded.next_of_large (h : r.Bounded c)
    (hlarge : c.limit < (openRun c.framing.delimiter r.segmenter.buffer).length) :
    r.next.2.source = r.source ∧
      openRun c.framing.delimiter r.next.2.segmenter.buffer =
        openRun c.framing.delimiter r.segmenter.buffer := by
  obtain ⟨blanks, rest, hb, hblanks, hcases⟩ := Segmenter.next_cases h.segmenter.searched
  have hopen : openRun r.segmenter.framing.delimiter r.segmenter.buffer =
      openRun r.segmenter.framing.delimiter rest := by
    rw [hb, openRun_closing fun run hrun => (hblanks run hrun).2]
  rw [← h.segmenter.limit_eq, ← h.segmenter.framing_eq] at *
  rw [hopen] at hlarge ⊢
  rcases hcases with ⟨hrest, hnext⟩ | ⟨run, after, rfl, hrun, hblank, hnext⟩
  · rw [openRun_of_notMem hrest] at hlarge
    rw [if_pos hlarge] at hnext
    rw [next_of_answer hnext (by simp)]
    exact ⟨rfl, rfl⟩
  · rw [next_of_answer hnext (Segmenter.answer_ne_none _ run), openRun_append_cons hrun]
    exact ⟨rfl, rfl⟩

/-- **Behind a run over the limit** that no delimiter closes, nothing more is read. -/
theorem Bounded.source_after (h : r.Bounded c)
    (hlarge : c.limit < (openRun c.framing.delimiter r.segmenter.buffer).length) (k : Nat) :
    (r.after k).source = r.source := by
  induction k generalizing r with
  | zero => rfl
  | succ k ih =>
    obtain ⟨hsource, hopen⟩ := h.next_of_large hlarge
    exact (ih h.next (hopen ▸ hlarge)).trans hsource

/-- A flood without a delimiter: one read is made of it, and every call refuses what that brought. -/
example :
    (ofConfig ⟨.lineDelimited, 2, 3⟩ (Source.ofBytes [0x61, 0x62, 0x63, 0x64, 0x65])).answers 3 =
        List.replicate 3 (.error (.tooLarge 3 2)) ∧
      ((ofConfig ⟨.lineDelimited, 2, 3⟩
        (Source.ofBytes [0x61, 0x62, 0x63, 0x64, 0x65])).after 3).source.reads = 1 := by
  constructor
  · decide +kernel
  · decide +kernel

/-- **A call within the limit**, whatever the source brings and however the calls before came
out. -/
structure WithinLimit (r : FrameReader) (c : FrameConfig) : Prop where
  /-- The buffer is bounded at each turn of the loop, and each turn comes to what the call does. -/
  buffered_le : ∀ t ∈ r.turns, t.buffered ≤ c.limit + c.room ∧ t.next = r.next
  length_le : ∀ segment, r.next.1 = .ok (some segment) → segment.length ≤ c.limit
  tooLarge_cases : ∀ size max, r.next.1 = .error (.tooLarge size max) →
    max = c.limit ∧ c.limit < size ∧
      (r.Drops c.framing.delimiter size ∨ r.Withholds c.framing.delimiter size)
  /-- Behind a run that is refused while no delimiter closes it, nothing more is read. -/
  source_eq : ∀ size max, r.next.1 = .error (.tooLarge size max) →
    r.Withholds c.framing.delimiter size → ∀ k, (r.next.2.after k).source = r.next.2.source

theorem Bounded.withinLimit (h : r.Bounded c) : r.WithinLimit c where
  buffered_le t ht := ⟨(h.of_mem_turns ht).1.segmenter.length_le, (h.of_mem_turns ht).2⟩
  length_le _ := h.length_le_of_segment
  tooLarge_cases _ _ := h.tooLarge_cases
  source_eq size max hanswer hwithheld k := by
    obtain ⟨-, hlarge, -⟩ := h.tooLarge_cases hanswer
    obtain ⟨hrest, rfl⟩ := hwithheld
    refine h.next.source_after ?_ k
    rwa [openRun_of_notMem hrest]

end FrameReader

end WarcStream
