import WarcStream.Proofs.Frame.Searching
/-!
# Nothing lost and nothing twice

Whatever the owner of a segmenter does with it, the octets fed are those that the
calls have taken off the front of the buffer, call by call, and those it still
holds. `Takes` says what a call takes for each answer it can give, behind the
blank runs that it drops, and `Accounted` is the account of one call. A run that
is refused before it is closed stays in the buffer (`IsWithheld`), so it is handed
out whole once the limit allows it: `conserves_octets`.
-/

namespace WarcStream

open Bytes

/-- The octets that a step brings. -/
def SegmenterStep.octets : SegmenterStep → Bytes
  | .feed octets => octets
  | .next | .last | .setLimit _ => []

/-- The octets that steps bring. -/
def fed (steps : List SegmenterStep) : Bytes := steps.flatMap SegmenterStep.octets

/-! ## The account of a call -/

namespace SegmenterCall

variable {call : SegmenterCall} {octets : Bytes}

/-- The octet that the buffer is cut at. -/
abbrev delimiter (call : SegmenterCall) : UInt8 := call.before.framing.delimiter

/-- What a call has to go by: the buffer before it and what it brings. -/
def held (call : SegmenterCall) : Bytes := call.before.buffer ++ call.step.octets

/-- What a call takes off the front: as much as is missing from the buffer behind it. -/
def removed (call : SegmenterCall) : Bytes :=
  call.held.take (call.held.length - call.after.buffer.length)

/-- **What a call takes** behind the blank runs that it drops, by its answer. -/
inductive Takes (call : SegmenterCall) : Bytes → Prop
  /-- No segment was asked for. -/
  | unasked : call.answer = none → Takes call []
  /-- A segment is handed out, and its delimiter goes with it. -/
  | segment {run : Bytes} :
      call.answer = some (.ok (some run)) → call.delimiter ∉ run → allBlank run = false →
      run.length ≤ call.before.limit → Takes call (run ++ [call.delimiter])
  /-- A closed run over the limit is refused, and goes with its delimiter. -/
  | refused {run : Bytes} :
      call.answer = some (.error (.tooLarge run.length call.before.limit)) →
      call.delimiter ∉ run → allBlank run = false → call.before.limit < run.length →
      Takes call (run ++ [call.delimiter])
  /-- A run over the limit that is not closed is refused, and stays. -/
  | withheld :
      call.answer = some (.error (.tooLarge call.after.buffer.length call.before.limit)) →
      call.delimiter ∉ call.after.buffer → call.before.limit < call.after.buffer.length →
      Takes call []
  /-- Before the end of the stream, a run that is not closed stays. -/
  | waiting :
      call.step = .next → call.answer = some (.ok none) → call.delimiter ∉ call.after.buffer →
      call.after.buffer.length ≤ call.before.limit → Takes call []
  /-- At the end of the stream, the run behind the last delimiter is handed out, -/
  | tail {rest : Bytes} :
      call.step = .last → call.answer = some (.ok (some rest)) → call.delimiter ∉ rest →
      allBlank rest = false → rest.length ≤ call.before.limit → call.after.buffer = [] →
      Takes call rest
  /-- or dropped, if it is blank. -/
  | drained {rest : Bytes} :
      call.step = .last → call.answer = some (.ok none) → call.delimiter ∉ rest →
      allBlank rest = true → call.after.buffer = [] → Takes call rest

/-- **The account of a call**: what it has to go by is what it takes off the front and what it
leaves. It takes blank runs with their delimiters, if it was asked for a segment, and then what its
answer says. -/
structure Accounted (call : SegmenterCall) : Prop where
  balance : call.held = call.removed ++ call.after.buffer
  removed_eq : ∃ blanks piece, call.removed = closing call.delimiter blanks ++ piece ∧
    (∀ run ∈ blanks, allBlank run = true ∧ call.delimiter ∉ run) ∧ call.Takes piece
  removed_of_unasked : call.answer = none → call.removed = []

/-- A run over the limit was refused before it was closed. -/
def IsWithheld (call : SegmenterCall) : Prop :=
  call.answer = some (.error (.tooLarge call.after.buffer.length call.before.limit)) ∧
    call.delimiter ∉ call.after.buffer

theorem removed_of_held (h : call.held = octets ++ call.after.buffer) : call.removed = octets := by
  have hlen : call.held.length - call.after.buffer.length = octets.length := by
    rw [h, List.length_append, Nat.add_sub_cancel]
  rw [removed, hlen, h, List.take_left]

/-- A segment that is handed out is within the limit. -/
theorem Takes.length_le {piece segment : Bytes} (h : call.Takes piece)
    (hanswer : call.answer = some (.ok (some segment))) : segment.length ≤ call.before.limit := by
  cases h with
  | segment hsome _ _ hfits | tail _ hsome _ _ hfits _ =>
    rw [hanswer] at hsome
    cases hsome
    exact hfits
  | unasked hsome | refused hsome | withheld hsome | waiting _ hsome | drained _ hsome =>
    rw [hanswer] at hsome
    cases hsome

/-- A run that is refused is over the limit. It is closed and taken, or it is all that is left. -/
theorem Takes.tooLarge_cases {piece : Bytes} {size max : Nat} (h : call.Takes piece)
    (hanswer : call.answer = some (.error (.tooLarge size max))) :
    max = call.before.limit ∧ call.before.limit < size ∧
      ((∃ run, piece = run ++ [call.delimiter] ∧ call.delimiter ∉ run ∧ run.length = size) ∨
        call.delimiter ∉ call.after.buffer ∧ call.after.buffer.length = size) := by
  cases h with
  | refused hsome hrun _ hlarge =>
    rw [hanswer] at hsome
    obtain ⟨rfl, rfl⟩ := FrameError.tooLarge.inj (Except.error.inj (Option.some.inj hsome))
    exact ⟨rfl, hlarge, .inl ⟨_, rfl, hrun, rfl⟩⟩
  | withheld hsome hrest hlarge =>
    rw [hanswer] at hsome
    obtain ⟨rfl, rfl⟩ := FrameError.tooLarge.inj (Except.error.inj (Option.some.inj hsome))
    exact ⟨rfl, hlarge, .inr ⟨hrest, rfl⟩⟩
  | unasked hsome | segment hsome | waiting _ hsome | tail _ hsome | drained _ hsome =>
    rw [hanswer] at hsome
    cases hsome

/-- A step that asks for no segment takes nothing. -/
theorem accounted_of_unasked (hanswer : call.answer = none)
    (hheld : call.held = call.after.buffer) : call.Accounted := by
  have hnone : call.removed = [] := removed_of_held hheld
  refine ⟨by rw [hnone]; exact hheld, ⟨[], [], hnone, by simp, .unasked hanswer⟩, fun _ => hnone⟩

/-- A call that was answered has its account where what it takes makes up for what is missing. -/
theorem accounted_of_takes {blanks : List Bytes} (piece : Bytes) (hasked : call.answer ≠ none)
    (hblanks : ∀ run ∈ blanks, allBlank run = true ∧ call.delimiter ∉ run)
    (hheld : call.held = closing call.delimiter blanks ++ piece ++ call.after.buffer)
    (htakes : call.Takes piece) : call.Accounted := by
  have hremoved : call.removed = closing call.delimiter blanks ++ piece := removed_of_held hheld
  exact ⟨by rw [hremoved, hheld], ⟨blanks, piece, hremoved, hblanks, htakes⟩,
    fun hnone => absurd hnone hasked⟩

end SegmenterCall

namespace Segmenter

variable {s t : Segmenter} {step : SegmenterStep} {more : List SegmenterStep}
variable {blanks : List Bytes} {run rest after : Bytes}

/-! ## Every call is accounted for -/

/-- A closed run at the front, behind blank ones, goes with its delimiter. -/
theorem accounted_of_closed (hstep : step.octets = [])
    (hb : s.buffer = closing s.framing.delimiter blanks ++ (run ++ s.framing.delimiter :: after))
    (hblanks : ∀ run ∈ blanks, allBlank run = true ∧ s.framing.delimiter ∉ run)
    (hrun : s.framing.delimiter ∉ run) (hblank : allBlank run = false) :
    SegmenterCall.Accounted
      ⟨step, s, some (if s.limit < run.length then .error (.tooLarge run.length s.limit)
        else .ok (some run)), s.behind after⟩ := by
  refine SegmenterCall.accounted_of_takes (run ++ [s.framing.delimiter])
    (Option.some_ne_none _) hblanks ?_ ?_
  · rw [SegmenterCall.held, hstep, List.append_nil, hb]
    simp [behind]
  · by_cases hlarge : s.limit < run.length
    · exact .refused (congrArg some (if_pos hlarge)) hrun hblank hlarge
    · exact .segment (congrArg some (if_neg hlarge)) hrun hblank (Nat.not_lt.1 hlarge)

/-- A run over the limit behind blank ones stays while it is not closed. -/
theorem accounted_of_withheld (hstep : step.octets = [])
    (hb : s.buffer = closing s.framing.delimiter blanks ++ rest)
    (hblanks : ∀ run ∈ blanks, allBlank run = true ∧ s.framing.delimiter ∉ run)
    (hrest : s.framing.delimiter ∉ rest) (hlarge : s.limit < rest.length) :
    SegmenterCall.Accounted
      ⟨step, s, some (.error (.tooLarge rest.length s.limit)), (s.behind rest).waiting⟩ := by
  refine SegmenterCall.accounted_of_takes [] (Option.some_ne_none _) hblanks ?_
    (.withheld rfl hrest hlarge)
  rw [SegmenterCall.held, hstep, List.append_nil, List.append_nil, hb]
  rfl

theorem accounted_next (h : s.Searched) :
    SegmenterCall.Accounted ⟨.next, s, some s.next.1, s.next.2⟩ := by
  obtain ⟨blanks, rest, hb, hblanks, ⟨hrest, hnext⟩ | ⟨run, after, rfl, hrun, hblank, hnext⟩⟩ :=
    next_cases h
  · rw [hnext]
    by_cases hlarge : s.limit < rest.length
    · rw [if_pos hlarge]
      exact accounted_of_withheld rfl hb hblanks hrest hlarge
    · rw [if_neg hlarge]
      refine SegmenterCall.accounted_of_takes [] (Option.some_ne_none _) hblanks ?_
        (.waiting rfl rfl hrest (Nat.not_lt.1 hlarge))
      rw [SegmenterCall.held, SegmenterStep.octets, List.append_nil, List.append_nil, hb]
      rfl
  · rw [hnext]
    exact accounted_of_closed rfl hb hblanks hrun hblank

theorem accounted_last (h : s.Searched) :
    SegmenterCall.Accounted ⟨.last, s, some s.last.1, s.last.2⟩ := by
  obtain ⟨blanks, rest, hb, hblanks, ⟨hrest, hnext⟩ | ⟨run, after, rfl, hrun, hblank, hnext⟩⟩ :=
    next_cases h
  · by_cases hlarge : s.limit < rest.length
    · rw [if_pos hlarge] at hnext
      rw [last_of_answer hnext (by simp)]
      exact accounted_of_withheld rfl hb hblanks hrest hlarge
    · -- the segmenter would wait, and takes all that is left instead
      rw [if_neg hlarge] at hnext
      rw [last_of_waiting hnext]
      refine SegmenterCall.accounted_of_takes rest (Option.some_ne_none _) hblanks ?_ ?_
      · rw [SegmenterCall.held, SegmenterStep.octets, List.append_nil, hb]
        exact (List.append_nil _).symm
      · cases hblank : allBlank rest with
        | true => exact .drained rfl (congrArg some (if_pos hblank)) hrest hblank rfl
        | false =>
          have hsome : ¬ allBlank rest = true := by simp [hblank]
          exact .tail rfl (congrArg some (if_neg hsome)) hrest hblank (Nat.not_lt.1 hlarge) rfl
  · rw [last_of_answer hnext (answer_ne_none s.limit run)]
    exact accounted_of_closed rfl hb hblanks hrun hblank

/-- **Every step has its account.** -/
theorem accounted_step (h : s.Searched) (step : SegmenterStep) :
    SegmenterCall.Accounted ⟨step, s, (s.step step).1, (s.step step).2⟩ := by
  cases step with
  | feed octets => exact SegmenterCall.accounted_of_unasked rfl rfl
  | next => exact accounted_next h
  | last => exact accounted_last h
  | setLimit limit => exact SegmenterCall.accounted_of_unasked rfl (List.append_nil _)

/-- Whatever is done with a segmenter, it keeps its framing. -/
theorem framing_step (s : Segmenter) (step : SegmenterStep) :
    (s.step step).2.framing = s.framing := by
  cases step with
  | feed octets => rfl
  | next => exact s.framing_next
  | last => exact s.framing_last
  | setLimit limit => rfl

/-- **Any steps**: what the segmenter held and what they brought is what they took off the front,
one after the other, and what is held in the end. -/
theorem balance_calls (h : s.Searched) (steps : List SegmenterStep) :
    s.buffer ++ fed steps =
        (s.calls steps).flatMap SegmenterCall.removed ++ (s.after steps).buffer ∧
      ∀ call ∈ s.calls steps,
        call.before.framing = s.framing ∧ call.after.framing = s.framing ∧ call.Accounted ∧
          call.after.Searched := by
  induction steps generalizing s with
  | nil => exact ⟨List.append_nil _, by simp [calls]⟩
  | cons step rest ih =>
    have haccount := accounted_step h step
    have hafter := (h.step step).2.2
    obtain ⟨hbalance, hcalls⟩ := ih hafter
    refine ⟨?_, ?_⟩
    · have hfirst : s.buffer ++ step.octets = _ ++ (s.step step).2.buffer := haccount.balance
      rw [fed, List.flatMap_cons, ← List.append_assoc, hfirst, List.append_assoc, calls,
        List.flatMap_cons, List.append_assoc]
      exact congrArg _ hbalance
    · intro call hcall
      rcases List.mem_cons.1 hcall with rfl | hcall
      · exact ⟨rfl, framing_step s step, haccount, hafter⟩
      · rw [← framing_step s step]
        exact hcalls call hcall

/-! ## A run that is withheld -/

/-- A run that is not closed stays in the buffer, unless it is handed out at the end. -/
theorem buffer_step (step : SegmenterStep) (h : t.Searched) (hopen : t.framing.delimiter ∉ t.buffer)
    (hlast : step = .last → ∃ e, (t.step step).1 = some (.error e)) :
    (t.step step).2.buffer = t.buffer ++ step.octets := by
  have hnext := next_of_notMem h hopen
  cases step with
  | feed octets => rfl
  | setLimit limit => exact (List.append_nil _).symm
  | next =>
    show t.next.2.buffer = t.buffer ++ []
    rw [hnext, List.append_nil]
    rfl
  | last =>
    show t.last.2.buffer = t.buffer ++ []
    obtain ⟨e, he⟩ := hlast rfl
    by_cases hlarge : t.limit < t.buffer.length
    · rw [if_pos hlarge] at hnext
      rw [last_of_answer hnext (by simp), List.append_nil]
      rfl
    · rw [if_neg hlarge] at hnext
      rw [step, last_of_waiting hnext] at he
      dsimp only at he
      split at he <;> cases he

/-- It stays so behind any steps that do not close it and are refused it at the end. -/
theorem buffer_after (h : t.Searched) (hopen : t.framing.delimiter ∉ t.buffer)
    (hmore : t.framing.delimiter ∉ fed more)
    (hlast : ∀ call ∈ t.calls more, call.step = .last → ∃ e, call.answer = some (.error e)) :
    (t.after more).buffer = t.buffer ++ fed more := by
  induction more generalizing t with
  | nil => exact (List.append_nil _).symm
  | cons step rest ih =>
    rw [fed, List.flatMap_cons, List.mem_append, not_or] at hmore
    obtain ⟨hstep, hrest⟩ := hmore
    have hbuffer := buffer_step step h hopen (hlast _ List.mem_cons_self)
    have hframing := framing_step t step
    have hstill : (t.step step).2.framing.delimiter ∉ (t.step step).2.buffer := by
      rw [hframing, hbuffer, List.mem_append, not_or]
      exact ⟨hopen, hstep⟩
    have hafter := ih (h.step step).2.2 hstill (hframing ▸ hrest) fun call hcall =>
      hlast call (List.mem_cons_of_mem _ hcall)
    rw [hbuffer, List.append_assoc] at hafter
    exact hafter

theorem framing_after (s : Segmenter) (steps : List SegmenterStep) :
    (s.after steps).framing = s.framing := by
  induction steps generalizing s with
  | nil => rfl
  | cons step rest ih => exact (ih (s.step step).2).trans (s.framing_step step)

/-- **The run is handed out whole**, unless it is blank: alone at the end of the stream, and with the
delimiter that closes it before. -/
structure HandsOutWhole (s : Segmenter) (run : Bytes) : Prop where
  last_eq : s.last = (if allBlank run then .ok none else .ok (some run), s.behind [])
  next_eq : ∀ behind, (s.feed (s.framing.delimiter :: behind)).next =
    if allBlank run then (s.behind behind).next else (.ok (some run), s.behind behind)

/-- A run that is within the limit by now is handed out whole. -/
theorem handsOutWhole (h : s.Searched) (hopen : s.framing.delimiter ∉ s.buffer)
    (hlimit : s.buffer.length ≤ s.limit) : s.HandsOutWhole s.buffer := by
  constructor
  · have hnext := next_of_notMem h hopen
    rw [if_neg (Nat.not_lt.2 hlimit)] at hnext
    have hlast := last_of_waiting hnext
    exact hlast
  · intro behind
    have hnext := next_of_append (h.feed (s.framing.delimiter :: behind)) rfl hopen
    rw [if_neg (Nat.not_lt.2 hlimit : ¬ (s.feed _).limit < s.buffer.length)] at hnext
    exact hnext

/-- **Nothing is lost and nothing comes twice.** Whatever steps a segmenter takes, the octets fed are
those that the steps took off the front of the buffer, one step after the other, and those it still
holds. Each step is accounted for: it takes blank runs, if a segment was asked for, and then what
its answer says. A run that was refused before it was closed is handed out whole, with what has
been fed behind it since, as soon as the limit allows it, or dropped if it is blank. -/
theorem conserves_octets (framing : Framing) (limit : Nat) (steps : List SegmenterStep) :
    fed steps = ((ofFraming framing limit).calls steps).flatMap SegmenterCall.removed ++
        ((ofFraming framing limit).after steps).buffer ∧
    ∀ call ∈ (ofFraming framing limit).calls steps,
      call.before.framing = framing ∧ call.Accounted ∧
      (call.IsWithheld → ∀ more limit', framing.delimiter ∉ fed more →
        (∀ later ∈ call.after.calls more, later.step = .last →
          ∃ e, later.answer = some (.error e)) →
        (call.after.buffer ++ fed more).length ≤ limit' →
        ((call.after.after more).setLimit limit').HandsOutWhole (call.after.buffer ++ fed more)) := by
  have hstart : (ofFraming framing limit).Searched := searched_of_zero rfl
  obtain ⟨hbalance, hcalls⟩ := balance_calls hstart steps
  refine ⟨hbalance, fun call hcall => ?_⟩
  obtain ⟨hframing, hkept, haccount, hsearched⟩ := hcalls call hcall
  refine ⟨hframing, haccount, fun hwithheld more limit' hmore hlast hlimit => ?_⟩
  have hopen : call.after.framing.delimiter ∉ call.after.buffer := by
    rw [hkept, ← hframing]
    exact hwithheld.2
  have hbuffer : (call.after.after more).buffer = call.after.buffer ++ fed more :=
    buffer_after hsearched hopen (hkept ▸ hmore) hlast
  have hlater := (hsearched.after more).step (.setLimit limit')
  rw [← hbuffer] at hlimit ⊢
  refine handsOutWhole hlater.2.2 ?_ hlimit
  show (call.after.after more).framing.delimiter ∉ (call.after.after more).buffer
  rw [framing_after, hkept, hbuffer, List.mem_append, not_or]
  exact ⟨hkept ▸ hopen, hmore⟩

/-- An octet is fed behind a line that was refused, and the limit is raised for both. -/
theorem conserves_octets_raisedLimit :
    ∃ call ∈ (ofFraming .lineDelimited 2).calls [.feed [0x61, 0x62, 0x63], .next],
      call.IsWithheld ∧
      ((call.after.after [.feed [0x64]]).setLimit 5).last.1 =
        .ok (some [0x61, 0x62, 0x63, 0x64]) := by
  let s : Segmenter := (ofFraming .lineDelimited 2).feed [0x61, 0x62, 0x63]
  let call : SegmenterCall := ⟨.next, s, some s.next.1, s.next.2⟩
  have hcall : call ∈ (ofFraming .lineDelimited 2).calls [.feed [0x61, 0x62, 0x63], .next] :=
    List.mem_cons_of_mem _ List.mem_cons_self
  have hopen : s.framing.delimiter ∉ s.buffer := by decide
  have hnext : s.next = (.error (.tooLarge 3 2), s.waiting) :=
    next_of_notMem ((searched_of_zero rfl).feed _) hopen
  have hbuffer : call.after.buffer = s.buffer := congrArg (·.2.buffer) hnext
  have hwithheld : call.IsWithheld := by
    refine ⟨?_, hbuffer ▸ hopen⟩
    rw [hbuffer]
    exact congrArg (some ·.1) hnext
  obtain ⟨-, hall⟩ := conserves_octets .lineDelimited 2 [.feed [0x61, 0x62, 0x63], .next]
  obtain ⟨-, -, hwhole⟩ := hall call hcall
  rw [hbuffer] at hwhole
  have hlater : ∀ later ∈ call.after.calls [.feed [0x64]], later.step = .last →
      ∃ e, later.answer = some (.error e) := by
    intro later hmem hlast
    rw [List.mem_singleton.1 hmem] at hlast
    cases hlast
  have hlast := (hwhole hwithheld [.feed [0x64]] 5 (by decide) hlater (by decide)).last_eq
  exact ⟨call, hcall, hwithheld, congrArg Prod.fst hlast⟩

/-- Blanks alone are never handed out: a line of them that was refused is dropped when the limit has
been raised for it. -/
theorem drops_refused_blanks :
    ∃ call ∈ (ofFraming .lineDelimited 3).calls [.feed [0x20, 0x20, 0x20, 0x20, 0x20], .next],
      call.IsWithheld ∧ call.after.buffer = [0x20, 0x20, 0x20, 0x20, 0x20] ∧
      (call.after.setLimit 10).last.1 = .ok none ∧ (call.after.setLimit 10).last.2.buffer = [] := by
  let s : Segmenter := (ofFraming .lineDelimited 3).feed [0x20, 0x20, 0x20, 0x20, 0x20]
  refine ⟨⟨.next, s, some s.next.1, s.next.2⟩, List.mem_cons_of_mem _ List.mem_cons_self,
    ⟨?_, ?_⟩, ?_, ?_, ?_⟩
  · decide +kernel
  · decide +kernel
  · decide +kernel
  · decide +kernel
  · decide +kernel

end Segmenter

end WarcStream
