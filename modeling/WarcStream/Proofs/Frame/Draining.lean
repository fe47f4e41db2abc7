import WarcStream.Proofs.Frame.Searching
/-!
# Calls at the end of the stream

At the end of the stream a segmenter hands out or refuses the runs that it holds, one a
call: `endAnswers`. Behind them a run over the limit that no delimiter closes makes the
difference. It is refused and stays where it is, so every call from then on refuses it
again; without such a run the buffer is empty and every call says so. `last_cases` is one
call, `Drains` is what any number of them comes to, and `drains_at_end` says it of a
segmenter in any state and of a reader whose source is at its end.
-/

namespace WarcStream

open Bytes Transport

/-! ## The answers that the octets call for -/

/-- What becomes of a run that is not blank. -/
def answerTo (limit : Nat) (run : Bytes) : Except FrameError (Option Bytes) :=
  if limit < run.length then .error (.tooLarge run.length limit) else .ok (some run)

/-- The answers at the end of the stream for as long as something leaves the buffer: one for each
closed run that is not blank, and the open run, if it is neither blank nor over the limit. -/
def endAnswers (d : UInt8) (limit : Nat) (bs : Bytes) : List (Except FrameError (Option Bytes)) :=
  (solid (closedRuns d bs)).map (answerTo limit) ++
    if limit < (openRun d bs).length ∨ allBlank (openRun d bs) = true then []
    else [.ok (some (openRun d bs))]

/-- The answer from then on. -/
def finalAnswer (d : UInt8) (limit : Nat) (bs : Bytes) : Except FrameError (Option Bytes) :=
  if limit < (openRun d bs).length then .error (.tooLarge (openRun d bs).length limit)
  else .ok none

/-- The octets that never leave the buffer. -/
def stuckOctets (d : UInt8) (limit : Nat) (bs : Bytes) : Bytes :=
  if limit < (openRun d bs).length then openRun d bs else []

section Answers

variable {d : UInt8} {limit : Nat} {bs after run rest : Bytes} {blanks : List Bytes}

/-- Each delimiter closes one run. -/
theorem length_closedRuns (d : UInt8) (bs : Bytes) : (closedRuns d bs).length = bs.count d := by
  induction hn : bs.length using Nat.strongRecOn generalizing bs with
  | _ n ih =>
    by_cases hmem : d ∈ bs
    · obtain ⟨run, after, rfl, hrun⟩ := List.eq_append_cons_of_mem hmem
      have hshort : after.length < n := by
        rw [← hn, List.length_append, List.length_cons]
        omega
      rw [closedRuns_append_cons hrun, List.length_cons, ih after.length hshort after rfl,
        List.count_append, List.count_eq_zero_of_not_mem hrun, List.count_cons_self, Nat.zero_add]
    · rw [closedRuns_of_notMem hmem, List.count_eq_zero_of_not_mem hmem, List.length_nil]

/-- There is no answer too many: one for each delimiter, and one more. -/
theorem length_endAnswers_le (d : UInt8) (limit : Nat) (bs : Bytes) :
    (endAnswers d limit bs).length ≤ bs.count d + 1 := by
  have hclosed : (solid (closedRuns d bs)).length ≤ bs.count d := by
    rw [← length_closedRuns]
    exact List.length_filter_le _ _
  rw [endAnswers, List.length_append, List.length_map]
  split
  · rw [List.length_nil]
    omega
  · rw [List.length_singleton]
    omega

/-- As long as something leaves the buffer, no answer says that nothing is left. -/
theorem none_notMem_endAnswers (d : UInt8) (limit : Nat) (bs : Bytes) :
    .ok none ∉ endAnswers d limit bs := by
  rw [endAnswers, List.mem_append, not_or]
  constructor
  · rw [List.mem_map]
    rintro ⟨run, -, hrun⟩
    rw [answerTo] at hrun
    split at hrun <;> cases hrun
  · split <;> simp

/-- Blank runs in front call for no answer. -/
theorem endAnswers_closing (h : ∀ run ∈ blanks, allBlank run = true ∧ d ∉ run) :
    endAnswers d limit (closing d blanks ++ after) = endAnswers d limit after := by
  have hsolid : solid blanks = [] := by
    rw [solid, List.filter_eq_nil_iff]
    intro run hrun
    rw [(h run hrun).1]
    exact Bool.false_ne_true
  have hruns : closedRuns d (closing d blanks ++ after) = blanks ++ closedRuns d after := by
    rw [closedRuns, splitOn_closing fun run hrun => (h run hrun).2,
      List.dropLast_append_of_ne_nil (List.splitOn_ne_nil d after), closedRuns]
  rw [endAnswers, hruns, openRun_closing fun run hrun => (h run hrun).2, solid_append, hsolid,
    List.nil_append, endAnswers]

/-- A closed run that is not blank calls for the first answer. -/
theorem endAnswers_append_cons (hrun : d ∉ run) (hblank : allBlank run = false) :
    endAnswers d limit (run ++ d :: after) = answerTo limit run :: endAnswers d limit after := by
  have hsolid : solid (run :: closedRuns d after) = run :: solid (closedRuns d after) := by
    simp [solid, hblank]
  rw [endAnswers, closedRuns_append_cons hrun, openRun_append_cons hrun, hsolid, List.map_cons,
    List.cons_append, endAnswers]

theorem endAnswers_of_notMem (h : d ∉ rest) :
    endAnswers d limit rest =
      if limit < rest.length ∨ allBlank rest = true then [] else [.ok (some rest)] := by
  rw [endAnswers, closedRuns_of_notMem h, openRun_of_notMem h]
  rfl

/-! ## One call -/

/-- **All that a call at the end of the stream can do** behind the blank runs that it drops: the
octets it finds, its answer, and the octets it leaves. -/
inductive EndStep (d : UInt8) (limit : Nat) :
    Bytes → Except FrameError (Option Bytes) → Bytes → Prop
  /-- A closed run leaves the buffer, whatever becomes of it. -/
  | closed {run after : Bytes} : d ∉ run → allBlank run = false →
      EndStep d limit (run ++ d :: after) (answerTo limit run) after
  /-- The open run is refused and stays. -/
  | withheld {rest : Bytes} : d ∉ rest → limit < rest.length →
      EndStep d limit rest (.error (.tooLarge rest.length limit)) rest
  /-- The open run is handed out. -/
  | handed {rest : Bytes} : d ∉ rest → rest.length ≤ limit → allBlank rest = false →
      EndStep d limit rest (.ok (some rest)) []
  /-- Nothing is left but blanks. -/
  | drained {rest : Bytes} : d ∉ rest → rest.length ≤ limit → allBlank rest = true →
      EndStep d limit rest (.ok none) []

variable {answer : Except FrameError (Option Bytes)}

/-- No call changes what every call comes to in the end. -/
theorem EndStep.finalAnswer_eq (h : EndStep d limit bs answer after) :
    finalAnswer d limit after = finalAnswer d limit bs ∧ stuckOctets d limit after = stuckOctets d limit bs := by
  cases h with
  | closed hrun hblank =>
    rw [finalAnswer, finalAnswer, stuckOctets, stuckOctets, openRun_append_cons hrun]
    exact ⟨rfl, rfl⟩
  | withheld hrest hlarge => exact ⟨rfl, rfl⟩
  | handed hrest hfits hblank | drained hrest hfits hblank =>
    rw [finalAnswer, finalAnswer, stuckOctets, stuckOctets, openRun_of_notMem hrest,
      if_neg (Nat.not_lt.2 hfits), if_neg (Nat.not_lt.2 hfits)]
    exact ⟨rfl, rfl⟩

/-- A call gives the first of the answers that the octets call for, or what every call comes to. -/
theorem EndStep.endAnswers_eq (h : EndStep d limit bs answer after) :
    endAnswers d limit bs = answer :: endAnswers d limit after ∨
      endAnswers d limit bs = [] ∧ endAnswers d limit after = [] ∧
        answer = finalAnswer d limit bs ∧ after = stuckOctets d limit bs := by
  cases h with
  | closed hrun hblank => exact .inl (endAnswers_append_cons hrun hblank)
  | withheld hrest hlarge =>
    have hnone : endAnswers d limit bs = [] := by
      rw [endAnswers_of_notMem hrest, if_pos (.inl hlarge)]
    refine .inr ⟨hnone, hnone, ?_, ?_⟩
    · rw [finalAnswer, openRun_of_notMem hrest, if_pos hlarge]
    · rw [stuckOctets, openRun_of_notMem hrest, if_pos hlarge]
  | handed hrest hfits hblank =>
    refine .inl ?_
    have hsome : ¬ (limit < bs.length ∨ allBlank bs = true) := by
      rw [hblank]
      exact not_or.2 ⟨Nat.not_lt.2 hfits, Bool.false_ne_true⟩
    rw [endAnswers_of_notMem hrest, if_neg hsome]
    rfl
  | drained hrest hfits hblank =>
    refine .inr ⟨?_, rfl, ?_, ?_⟩
    · rw [endAnswers_of_notMem hrest, if_pos (.inr hblank)]
    · rw [finalAnswer, openRun_of_notMem hrest, if_neg (Nat.not_lt.2 hfits)]
    · rw [stuckOctets, openRun_of_notMem hrest, if_neg (Nat.not_lt.2 hfits)]

end Answers

namespace Segmenter

variable {s : Segmenter}

/-- **One call at the end of the stream.** -/
theorem last_cases (h : s.Searched) :
    ∃ blanks bs, s.buffer = closing s.framing.delimiter blanks ++ bs ∧
      (∀ run ∈ blanks, allBlank run = true ∧ s.framing.delimiter ∉ run) ∧
      EndStep s.framing.delimiter s.limit bs s.last.1 s.last.2.buffer := by
  obtain ⟨blanks, rest, hb, hblanks, ⟨hrest, hnext⟩ | ⟨run, after, rfl, hrun, hblank, hnext⟩⟩ :=
    next_cases h
  · refine ⟨blanks, rest, hb, hblanks, ?_⟩
    by_cases hlarge : s.limit < rest.length
    · rw [if_pos hlarge] at hnext
      rw [last_of_answer hnext (by simp)]
      exact .withheld hrest hlarge
    · rw [if_neg hlarge] at hnext
      rw [last_of_waiting hnext]
      have hfits := Nat.not_lt.1 hlarge
      show EndStep _ _ rest (if allBlank rest then .ok none else .ok (some rest)) []
      cases hblank : allBlank rest with
      | true => exact .drained hrest hfits hblank
      | false => exact .handed hrest hfits hblank
  · refine ⟨blanks, _, hb, hblanks, ?_⟩
    rw [last_of_answer hnext (answer_ne_none s.limit run)]
    exact .closed hrun hblank

/-! ## Any number of calls -/

/-- The answers that the segmenter is still to give while its buffer empties, -/
def dueAnswers (s : Segmenter) : List (Except FrameError (Option Bytes)) :=
  endAnswers s.framing.delimiter s.limit s.buffer

/-- the answer that it gives from then on, -/
def lastingAnswer (s : Segmenter) : Except FrameError (Option Bytes) :=
  finalAnswer s.framing.delimiter s.limit s.buffer

/-- and what its buffer holds by then. -/
def lastingBuffer (s : Segmenter) : Bytes :=
  stuckOctets s.framing.delimiter s.limit s.buffer

/-- The answers to the next `n` calls at the end of the stream. -/
def lastAnswers (n : Nat) (s : Segmenter) : List (Except FrameError (Option Bytes)) :=
  (s.calls (List.replicate n .last)).filterMap SegmenterCall.answer

/-- What the buffer holds behind these calls. -/
def lastBuffer (n : Nat) (s : Segmenter) : Bytes := (s.after (List.replicate n .last)).buffer

theorem lastAnswers_succ (n : Nat) (s : Segmenter) :
    s.lastAnswers (n + 1) = s.last.1 :: s.last.2.lastAnswers n := rfl

theorem lastBuffer_succ (n : Nat) (s : Segmenter) :
    s.lastBuffer (n + 1) = s.last.2.lastBuffer n := rfl

/-- The answers to more calls begin with those to fewer. -/
theorem lastAnswers_prefix (s : Segmenter) (m n : Nat) :
    s.lastAnswers n <+: s.lastAnswers (m + n) := by
  induction n generalizing s with
  | zero => exact List.nil_prefix
  | succ n ih => exact List.cons_prefix_cons.2 ⟨rfl, ih s.last.2⟩

/-- **What is due behind a call**: the call gives the first answer that is due, or the lasting one,
which no call changes. -/
theorem Searched.dueAnswers_last (h : s.Searched) :
    (s.dueAnswers = s.last.1 :: s.last.2.dueAnswers ∨
      s.dueAnswers = [] ∧ s.last.2.dueAnswers = [] ∧ s.last.1 = s.lastingAnswer ∧
        s.last.2.buffer = s.lastingBuffer) ∧
    s.last.2.lastingAnswer = s.lastingAnswer ∧ s.last.2.lastingBuffer = s.lastingBuffer := by
  obtain ⟨blanks, bs, hb, hblanks, hstep⟩ := last_cases h
  have hopen : openRun s.framing.delimiter s.buffer = openRun s.framing.delimiter bs := by
    rw [hb, openRun_closing fun run hrun => (hblanks run hrun).2]
  have hdue : s.dueAnswers = endAnswers s.framing.delimiter s.limit bs := by
    rw [dueAnswers, hb, endAnswers_closing hblanks]
  have hanswer : s.lastingAnswer = finalAnswer s.framing.delimiter s.limit bs := by
    rw [lastingAnswer, finalAnswer, hopen, finalAnswer]
  have hbuffer : s.lastingBuffer = stuckOctets s.framing.delimiter s.limit bs := by
    rw [lastingBuffer, stuckOctets, hopen, stuckOctets]
  rw [hdue, hanswer, hbuffer, dueAnswers, lastingAnswer, lastingBuffer, s.framing_last,
    s.limit_last]
  exact ⟨hstep.endAnswers_eq, hstep.finalAnswer_eq⟩

/-- Any number of calls: the answers that are due, and then the lasting one. -/
theorem Searched.lastAnswers_eq (h : s.Searched) (n : Nat) :
    s.lastAnswers (s.dueAnswers.length + n) =
        s.dueAnswers ++ List.replicate n s.lastingAnswer ∧
      s.lastBuffer (s.dueAnswers.length + n + 1) = s.lastingBuffer := by
  induction hdue : s.dueAnswers generalizing s with
  | nil =>
    -- nothing is due: each call gives the lasting answer
    rw [List.length_nil, Nat.zero_add, List.nil_append]
    induction n generalizing s with
    | zero =>
      obtain ⟨hcons | ⟨-, -, -, hbuffer⟩, -, -⟩ := h.dueAnswers_last
      · rw [hdue] at hcons
        cases hcons
      · exact ⟨rfl, hbuffer⟩
    | succ n ih =>
      obtain ⟨hcons | ⟨-, hafter, hanswer, -⟩, hlasting, hkept⟩ := h.dueAnswers_last
      · rw [hdue] at hcons
        cases hcons
      · obtain ⟨hanswers, hbuffer⟩ := ih h.last.2.2 hafter
        rw [lastAnswers_succ, lastBuffer_succ, hanswers, hbuffer, hlasting, hkept, hanswer]
        exact ⟨rfl, rfl⟩
  | cons answer answers ih =>
    obtain ⟨hcons | ⟨hnil, -, -, -⟩, hlasting, hkept⟩ := h.dueAnswers_last
    · rw [hdue] at hcons
      obtain ⟨rfl, hafter⟩ := List.cons_eq_cons.1 hcons
      obtain ⟨hanswers, hbuffer⟩ := ih h.last.2.2 hafter.symm
      rw [List.length_cons, Nat.add_right_comm, lastAnswers_succ, lastBuffer_succ, hanswers,
        hbuffer, hlasting, hkept]
      exact ⟨rfl, rfl⟩
    · rw [hdue] at hnil
      cases hnil

/-- **What calls at the end of the stream come to**: no more answers than there are delimiters and
one more, while the buffer empties, and then one answer for good. It says that nothing is left,
unless a run over the limit is left that no delimiter closes. -/
structure Drains (s : Segmenter) (answers : Nat → List (Except FrameError (Option Bytes)))
    (buffer : Nat → Bytes) : Prop where
  length_le : s.dueAnswers.length ≤ s.buffer.count s.framing.delimiter + 1
  answers_eq : ∀ n, answers (s.dueAnswers.length + n) =
    s.dueAnswers ++ List.replicate n s.lastingAnswer
  buffer_eq : ∀ n, buffer (s.dueAnswers.length + n + 1) = s.lastingBuffer
  none_iff : (∃ n, .ok none ∈ answers n) ↔
    (openRun s.framing.delimiter s.buffer).length ≤ s.limit

/-- Nothing left is an answer exactly where no run over the limit stays. -/
theorem Searched.none_mem_iff (h : s.Searched) :
    (∃ n, .ok none ∈ s.lastAnswers n) ↔
      (openRun s.framing.delimiter s.buffer).length ≤ s.limit := by
  constructor
  · rintro ⟨n, hmem⟩
    have hall := (s.lastAnswers_prefix s.dueAnswers.length n).subset hmem
    rw [(h.lastAnswers_eq n).1, List.mem_append] at hall
    rcases hall with hdue | hlasting
    · exact absurd hdue (none_notMem_endAnswers _ _ _)
    · have hnone := List.eq_of_mem_replicate hlasting
      rw [lastingAnswer, finalAnswer] at hnone
      split at hnone
      · cases hnone
      · exact Nat.not_lt.1 ‹_›
  · intro hfits
    refine ⟨s.dueAnswers.length + 1, ?_⟩
    rw [(h.lastAnswers_eq 1).1, lastingAnswer, finalAnswer, if_neg (Nat.not_lt.2 hfits)]
    exact List.mem_append_right _ (List.mem_singleton_self _)

theorem Searched.drains (h : s.Searched) : s.Drains (lastAnswers · s) (lastBuffer · s) :=
  ⟨length_endAnswers_le _ _ _, fun n => (h.lastAnswers_eq n).1, fun n => (h.lastAnswers_eq n).2,
    h.none_mem_iff⟩

/-- A segmenter that waits answers the same when it is asked again. -/
theorem Searched.next_again {waiting : Segmenter} (h : s.Searched)
    (hnext : s.next = (.ok none, waiting)) : waiting.next = (.ok none, waiting) := by
  obtain ⟨blanks, rest, -, -, ⟨hrest, hcases⟩ | ⟨run, after, -, -, -, hcases⟩⟩ := next_cases h
  · rw [hnext] at hcases
    obtain ⟨hanswer, rfl⟩ := Prod.mk.inj hcases
    by_cases hlarge : s.limit < rest.length
    · rw [if_pos hlarge] at hanswer
      cases hanswer
    · exact next_waiting hrest hlarge
  · rw [hnext] at hcases
    obtain ⟨hanswer, -⟩ := Prod.mk.inj hcases
    split at hanswer <;> cases hanswer

end Segmenter

/-! ## A reader whose source is at its end -/

namespace FrameReader

variable {r : FrameReader}

/-- The source has nothing more to deliver. -/
def IsDrained (r : FrameReader) : Prop := r.ended = true ∨ r.source.script = []

/-- **One call of a reader whose source is at its end** is one of its segmenter at the end of the
stream. -/
theorem next_of_isDrained (hs : r.segmenter.Searched) (h : r.IsDrained) :
    r.next.1 = r.segmenter.last.1 ∧ r.next.2.segmenter = r.segmenter.last.2 ∧
      r.next.2.IsDrained := by
  match hnext : r.segmenter.next with
  | (.ok none, waiting) =>
    obtain ⟨later, hcall, hended, hbuffer⟩ := next_of_drained h hnext (hs.next_again hnext)
    rw [hcall, Segmenter.last_of_waiting hnext]
    exact ⟨rfl, hbuffer, .inl hended⟩
  | (.ok (some segment), later) =>
    rw [next_of_answer hnext (by simp), Segmenter.last_of_answer hnext (by simp)]
    exact ⟨rfl, rfl, h⟩
  | (.error e, later) =>
    rw [next_of_answer hnext (by simp), Segmenter.last_of_answer hnext (by simp)]
    exact ⟨rfl, rfl, h⟩

/-- Any number of its calls are calls of its segmenter at the end of the stream. -/
theorem answers_of_isDrained (hs : r.segmenter.Searched) (h : r.IsDrained) (n : Nat) :
    r.answers n = r.segmenter.lastAnswers n ∧
      (r.after n).segmenter.buffer = r.segmenter.lastBuffer n := by
  induction n generalizing r with
  | zero => exact ⟨rfl, rfl⟩
  | succ n ih =>
    obtain ⟨hanswer, hsegmenter, hdrained⟩ := next_of_isDrained hs h
    obtain ⟨hanswers, hbuffer⟩ := ih (hsegmenter ▸ hs.last.2.2) hdrained
    rw [hsegmenter] at hanswers hbuffer
    exact ⟨by rw [answers, hanswer, hanswers, Segmenter.lastAnswers_succ], hbuffer⟩

end FrameReader

namespace Segmenter

/-- **The end of the stream.** Whatever was done with a segmenter before, calls at the end of the
stream refuse or hand out each closed run that is not blank, once, and the open run, if it is
within the limit. That takes no more calls than there are delimiters and one more; then they say
that nothing is left, and the buffer is empty. They never do exactly where the open run is over
the limit: it stays, and each call refuses it again. A reader whose source is at its end answers
the same, for its segmenter is one that some steps were taken with
(`FrameReader.exists_steps_after`). -/
theorem drains_at_end (framing : Framing) (limit : Nat) (steps : List SegmenterStep) :
    ((ofFraming framing limit).after steps).Drains
        (lastAnswers · ((ofFraming framing limit).after steps))
        (lastBuffer · ((ofFraming framing limit).after steps)) ∧
    ∀ r : FrameReader, r.segmenter = (ofFraming framing limit).after steps → r.IsDrained →
      r.segmenter.Drains (fun n => r.answers n) fun n => (r.after n).segmenter.buffer := by
  have hstart : (ofFraming framing limit).Searched := searched_of_zero rfl
  have hsearched := hstart.after steps
  refine ⟨hsearched.drains, fun r hr hdrained => ?_⟩
  rw [← hr] at hsearched
  have hanswers : (fun n => r.answers n) = (lastAnswers · r.segmenter) :=
    funext fun n => (FrameReader.answers_of_isDrained hsearched hdrained n).1
  have hbuffer : (fun n => (r.after n).segmenter.buffer) = (lastBuffer · r.segmenter) :=
    funext fun n => (FrameReader.answers_of_isDrained hsearched hdrained n).2
  rw [hanswers, hbuffer]
  exact hsearched.drains

/-- A reader behind its first line, with a second one over the limit that nothing closes. -/
def largeRest : FrameReader :=
  (FrameReader.ofConfig ⟨.lineDelimited, 2, 9⟩
    (Source.ofBytes [0x61, 0x0a, 0x62, 0x63, 0x64])).after 1

theorem drains_at_end_largeRest :
    largeRest.IsDrained ∧
      ∀ n, largeRest.answers n = List.replicate n (.error (.tooLarge 3 2)) := by
  have hdrained : largeRest.IsDrained := .inr (by decide +kernel)
  obtain ⟨steps, hsteps⟩ := FrameReader.exists_steps_after (FrameReader.ofConfig
    ⟨.lineDelimited, 2, 9⟩ (Source.ofBytes [0x61, 0x0a, 0x62, 0x63, 0x64])) 1
  have hdrains := (drains_at_end .lineDelimited 2 steps).2 largeRest hsteps hdrained
  have hdue : largeRest.segmenter.dueAnswers = [] := by decide +kernel
  have hlasting : largeRest.segmenter.lastingAnswer = .error (.tooLarge 3 2) := by decide +kernel
  refine ⟨hdrained, fun n => ?_⟩
  have hanswers := hdrains.answers_eq n
  rw [hdue, hlasting, List.length_nil, Nat.zero_add, List.nil_append] at hanswers
  exact hanswers

end Segmenter

end WarcStream
