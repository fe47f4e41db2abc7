import WarcStream.Proofs.Frame.Reading
/-!
# The search that goes on where it stopped

A segmenter remembers how much of its buffer holds no delimiter and looks only at
the rest. Its owner feeds it, asks it for segments before the end of the stream
and at it, and sets its limit, in any order (`SegmenterStep`). What it remembers is
right behind every step (`Searched.step`) and at every turn of the loop inside a
call (`Searched.of_mem_turns`), so it answers as a `Scanner` does, which remembers
nothing and searches all of its buffer each time: `calls_eq_trace`. A reader is such an
owner (`FrameReader.exists_steps_after`).
-/

namespace WarcStream

open Bytes

/-- What the owner of a segmenter does with it. -/
inductive SegmenterStep where
  /-- Octets arrive. -/
  | feed (octets : Bytes)
  /-- The next segment is asked for. -/
  | next
  /-- The next segment is asked for at the end of the stream. -/
  | last
  /-- The limit is set. -/
  | setLimit (limit : Nat)
  deriving DecidableEq, Repr

/-- One step, with the segmenter before it and what came of it. -/
structure SegmenterCall where
  step : SegmenterStep
  before : Segmenter
  /-- The answer, if a segment was asked for. -/
  answer : Option (Except FrameError (Option Bytes))
  after : Segmenter
  deriving Repr

/-! ## A search from the start -/

/-- A segmenter without a memory: it searches all of its buffer each time. -/
structure Scanner where
  framing : Framing
  limit : Nat
  buffer : Bytes := []
  deriving DecidableEq, Repr

namespace Scanner

variable {s : Scanner} {run after : Bytes}

/-- Hands out the next segment that is not blank, if a whole one has arrived. -/
def next (s : Scanner) : Except FrameError (Option Bytes) × Scanner :=
  match _h : splitAt? s.framing.delimiter s.buffer with
  | none =>
    if s.limit < s.buffer.length then (.error (.tooLarge s.buffer.length s.limit), s)
    else (.ok none, s)
  | some (segment, after) =>
    let rest := { s with buffer := after }
    if allBlank segment then rest.next
    else if s.limit < segment.length then (.error (.tooLarge segment.length s.limit), rest)
    else (.ok (some segment), rest)
termination_by s.buffer.length
decreasing_by exact Segmenter.length_lt_of_splitAt? _h

/-- Hands out the next segment at the end of the stream, where what is left is one. -/
def last (s : Scanner) : Except FrameError (Option Bytes) × Scanner :=
  match s.next with
  | (.ok none, waiting) =>
    (if allBlank waiting.buffer then .ok none else .ok (some waiting.buffer),
      { waiting with buffer := [] })
  | answer => answer

/-- One step, and its answer if a segment was asked for. -/
def step (s : Scanner) : SegmenterStep → Option (Except FrameError (Option Bytes)) × Scanner
  | .feed octets => (none, { s with buffer := s.buffer ++ octets })
  | .next => (some s.next.1, s.next.2)
  | .last => (some s.last.1, s.last.2)
  | .setLimit limit => (none, { s with limit })

/-- The answer to each of these steps, with the buffer that it leaves. -/
def trace : Scanner → List SegmenterStep →
    List (Option (Except FrameError (Option Bytes)) × Bytes)
  | _, [] => []
  | s, step :: rest => ((s.step step).1, (s.step step).2.buffer) :: (s.step step).2.trace rest

theorem next_of_none (h : splitAt? s.framing.delimiter s.buffer = none) :
    s.next =
      (if s.limit < s.buffer.length then .error (.tooLarge s.buffer.length s.limit) else .ok none,
        s) := by
  rw [next]
  split
  · split <;> rfl
  · rename_i hsome
    rw [h] at hsome
    cases hsome

theorem next_of_some (h : splitAt? s.framing.delimiter s.buffer = some (run, after)) :
    s.next =
      if allBlank run then next { s with buffer := after }
      else if s.limit < run.length then
        (.error (.tooLarge run.length s.limit), { s with buffer := after })
      else (.ok (some run), { s with buffer := after }) := by
  rw [next]
  split
  · rename_i hnone
    rw [h] at hnone
    cases hnone
  · rename_i segment rest hsome
    rw [h] at hsome
    obtain ⟨rfl, rfl⟩ := Prod.mk.inj (Option.some.inj hsome)
    rfl

end Scanner

namespace Segmenter

variable {s t : Segmenter}

/-- A segmenter that nothing has been fed to. -/
def ofFraming (framing : Framing) (limit : Nat) : Segmenter := { framing, limit }

/-- One step, and its answer if a segment was asked for. -/
def step (s : Segmenter) : SegmenterStep → Option (Except FrameError (Option Bytes)) × Segmenter
  | .feed octets => (none, s.feed octets)
  | .next => (some s.next.1, s.next.2)
  | .last => (some s.last.1, s.last.2)
  | .setLimit limit => (none, s.setLimit limit)

/-- The segmenter behind these steps. -/
def after (s : Segmenter) (steps : List SegmenterStep) : Segmenter :=
  steps.foldl (fun s step => (s.step step).2) s

theorem after_cons (s : Segmenter) (step : SegmenterStep) (rest : List SegmenterStep) :
    s.after (step :: rest) = (s.step step).2.after rest := rfl

theorem after_append (s : Segmenter) (xs ys : List SegmenterStep) :
    s.after (xs ++ ys) = (s.after xs).after ys := List.foldl_append

/-- These steps, one after the other. -/
def calls : Segmenter → List SegmenterStep → List SegmenterCall
  | _, [] => []
  | s, step :: rest => ⟨step, s, (s.step step).1, (s.step step).2⟩ :: (s.step step).2.calls rest

/-- The same buffer without the memory of what has been searched. -/
def scanner (s : Segmenter) : Scanner := ⟨s.framing, s.limit, s.buffer⟩

/-- The segmenter at each turn of the loop inside a call: as it is at first, and then behind each
blank run that is dropped. Each turn looks for a delimiter once. -/
def turns (s : Segmenter) : List Segmenter :=
  match _h : s.cut? with
  | none => [s]
  | some (segment, after) => if allBlank segment then s :: (s.behind after).turns else [s]
termination_by s.buffer.length
decreasing_by exact length_lt_of_cut? _h

/-! ## What is remembered is right -/

/-- A blank run at the front is dropped, and the loop turns again. -/
theorem next_of_cut? {run after : Bytes} (h : s.cut? = some (run, after))
    (hblank : allBlank run = true) : s.next = (s.behind after).next := by
  rw [Segmenter.next]
  split
  · rename_i hnone
    rw [h] at hnone
    cases hnone
  · rename_i segment rest hsome
    rw [h] at hsome
    obtain ⟨rfl, rfl⟩ := Prod.mk.inj (Option.some.inj hsome)
    exact if_pos hblank

/-- **One call** comes to what the scanner does, and remembers rightly what it has searched. -/
theorem Searched.next (h : s.Searched) :
    s.next.1 = s.scanner.next.1 ∧ s.next.2.scanner = s.scanner.next.2 ∧ s.next.2.Searched := by
  -- along the blank runs at the front of the buffer
  induction hn : s.buffer.length using Nat.strongRecOn generalizing s with
  | _ n ih =>
    by_cases hmem : s.framing.delimiter ∈ s.buffer
    · obtain ⟨run, after, hb, hrun⟩ := List.eq_append_cons_of_mem hmem
      have hcut : splitAt? s.scanner.framing.delimiter s.scanner.buffer = some (run, after) := by
        rw [scanner, hb, splitAt?_append_cons hrun]
      have hplain : s.scanner.next =
          if allBlank run then (s.behind after).scanner.next
          else if s.limit < run.length then
            (.error (.tooLarge run.length s.limit), (s.behind after).scanner)
          else (.ok (some run), (s.behind after).scanner) := Scanner.next_of_some hcut
      have hafter := s.searched_behind after
      rw [next_of_append h hb hrun, hplain]
      by_cases hblank : allBlank run = true
      · have hshort : after.length < n := by
          rw [← hn, hb, List.length_append, List.length_cons]
          omega
        rw [if_pos hblank, if_pos hblank]
        exact ih after.length hshort hafter rfl
      · rw [if_neg hblank, if_neg hblank]
        by_cases hlarge : s.limit < run.length
        · rw [if_pos hlarge, if_pos hlarge]
          exact ⟨rfl, rfl, hafter⟩
        · rw [if_neg hlarge, if_neg hlarge]
          exact ⟨rfl, rfl, hafter⟩
    · have hcut : splitAt? s.scanner.framing.delimiter s.scanner.buffer = none :=
        splitAt?_of_notMem hmem
      rw [next_of_notMem h hmem, Scanner.next_of_none hcut]
      exact ⟨rfl, rfl, searched_waiting hmem⟩

/-- One call at the end of the stream comes to what the scanner does. Where it takes all that is
left, nothing remains to be remembered. -/
theorem Searched.last (h : s.Searched) :
    s.last.1 = s.scanner.last.1 ∧ s.last.2.scanner = s.scanner.last.2 ∧ s.last.2.Searched := by
  obtain ⟨hanswer, hscanner, hsearched⟩ := h.next
  match hnext : s.next with
  | (.ok none, waiting) =>
    rw [hnext] at hanswer hscanner
    have hplain : s.scanner.next = (.ok none, waiting.scanner) := Prod.ext hanswer.symm hscanner.symm
    rw [last_of_waiting hnext, Scanner.last, hplain]
    exact ⟨rfl, rfl, searched_behind waiting []⟩
  | (.ok (some segment), later) =>
    rw [hnext] at hanswer hscanner hsearched
    have hplain : s.scanner.next = (.ok (some segment), later.scanner) :=
      Prod.ext hanswer.symm hscanner.symm
    rw [last_of_answer hnext (by simp), Scanner.last, hplain]
    exact ⟨rfl, rfl, hsearched⟩
  | (.error e, later) =>
    rw [hnext] at hanswer hscanner hsearched
    have hplain : s.scanner.next = (.error e, later.scanner) :=
      Prod.ext hanswer.symm hscanner.symm
    rw [last_of_answer hnext (by simp), Scanner.last, hplain]
    exact ⟨rfl, rfl, hsearched⟩

/-- **One step** comes to what the scanner does, and keeps what is remembered right. -/
theorem Searched.step (h : s.Searched) (step : SegmenterStep) :
    (s.step step).1 = (s.scanner.step step).1 ∧
      (s.step step).2.scanner = (s.scanner.step step).2 ∧ (s.step step).2.Searched := by
  cases step with
  | feed octets => exact ⟨rfl, rfl, h.feed octets⟩
  | next =>
    obtain ⟨hanswer, hscanner, hsearched⟩ := h.next
    exact ⟨congrArg some hanswer, hscanner, hsearched⟩
  | last =>
    obtain ⟨hanswer, hscanner, hsearched⟩ := h.last
    exact ⟨congrArg some hanswer, hscanner, hsearched⟩
  | setLimit limit => exact ⟨rfl, rfl, h.le_length, h.notMem⟩

/-- What is remembered is right behind any steps. -/
theorem Searched.after (h : s.Searched) (steps : List SegmenterStep) : (s.after steps).Searched := by
  induction steps generalizing s with
  | nil => exact h
  | cons step rest ih => exact ih (h.step step).2.2

/-- **Any steps** come to what the scanner does. -/
theorem Searched.calls_eq (h : s.Searched) (steps : List SegmenterStep) :
    (s.calls steps).map (fun call => (call.answer, call.after.buffer)) = s.scanner.trace steps := by
  induction steps generalizing s with
  | nil => rfl
  | cons step rest ih =>
    obtain ⟨hanswer, hscanner, hsearched⟩ := h.step step
    have hbuffer : (s.step step).2.buffer = (s.scanner.step step).2.buffer :=
      congrArg Scanner.buffer hscanner
    rw [calls, List.map_cons, ih hsearched, Scanner.trace, hscanner, hanswer, hbuffer]

/-- **At each turn** of the loop what is remembered is right, and the call comes to the same. -/
theorem Searched.of_mem_turns (h : s.Searched) (ht : t ∈ s.turns) :
    t.Searched ∧ t.next = s.next := by
  fun_induction turns s with
  | case1 s hcut =>
    obtain rfl := List.mem_singleton.1 ht
    exact ⟨h, rfl⟩
  | case2 s segment after hcut hblank ih =>
    rcases List.mem_cons.1 ht with rfl | ht
    · exact ⟨h, rfl⟩
    · obtain ⟨hsearched, hnext⟩ := ih (s.searched_behind after) ht
      exact ⟨hsearched, hnext.trans (next_of_cut? hcut hblank).symm⟩
  | case3 s segment after hcut hblank =>
    obtain rfl := List.mem_singleton.1 ht
    exact ⟨h, rfl⟩

/-- **The search is resumed rightly.** Whatever the owner of a segmenter does, each answer and the
buffer it leaves are those of a scanner, which searches all of its buffer each time. Behind any
steps, and at each turn of a call made there, what is taken for searched is in the buffer and holds
no delimiter, so what is left to search can be cut off, and the cut that is found is the first one
of the whole buffer. -/
theorem calls_eq_trace (framing : Framing) (limit : Nat) (steps : List SegmenterStep) :
    ((ofFraming framing limit).calls steps).map (fun call => (call.answer, call.after.buffer)) =
      (Scanner.mk framing limit []).trace steps ∧
    ∀ t ∈ ((ofFraming framing limit).after steps).turns,
      t.searched ≤ t.buffer.length ∧ t.framing.delimiter ∉ t.buffer.take t.searched ∧
      t.cut? = splitAt? t.framing.delimiter t.buffer ∧
      t.next = ((ofFraming framing limit).after steps).next := by
  have hstart : (ofFraming framing limit).Searched := searched_of_zero rfl
  refine ⟨hstart.calls_eq steps, fun t ht => ?_⟩
  obtain ⟨hsearched, hnext⟩ := (hstart.after steps).of_mem_turns ht
  exact ⟨hsearched.le_length, hsearched.notMem, cut?_eq hsearched, hnext⟩

end Segmenter

/-! ## Readers -/

namespace FrameReader

/-- A call of a reader does nothing else with its segmenter than its owner may do, -/
theorem exists_steps_next (r : FrameReader) :
    ∃ steps, r.next.2.segmenter = r.segmenter.after steps := by
  -- along the reads of the call
  fun_induction next r with
  | case1 r hended => exact ⟨[.last], rfl⟩
  | case2 r hended waiting hnext f source hread r' hint ih =>
    obtain ⟨steps, hsteps⟩ := ih
    refine ⟨.next :: steps, hsteps.trans ?_⟩
    rw [Segmenter.after_cons, Segmenter.step, hnext]
  | case3 r hended waiting hnext f source hread r' hint =>
    exact ⟨[.next], (congrArg Prod.snd hnext).symm⟩
  | case4 r hended waiting hnext source hread =>
    refine ⟨[.next, .last], ?_⟩
    show waiting.last.2 = r.segmenter.next.2.last.2
    rw [hnext]
  | case5 r hended waiting hnext octets source hread hsome ih =>
    obtain ⟨steps, hsteps⟩ := ih
    refine ⟨.next :: .feed octets :: steps, hsteps.trans ?_⟩
    rw [Segmenter.after_cons, Segmenter.step, hnext]
    rfl
  | case6 r hended answer segmenter hsome hnext =>
    exact ⟨[.next], (congrArg Prod.snd hnext).symm⟩

/-- and neither do any number of them. -/
theorem exists_steps_after (r : FrameReader) (n : Nat) :
    ∃ steps, (r.after n).segmenter = r.segmenter.after steps := by
  induction n generalizing r with
  | zero => exact ⟨[], rfl⟩
  | succ n ih =>
    obtain ⟨first, hfirst⟩ := r.exists_steps_next
    obtain ⟨rest, hrest⟩ := ih r.next.2
    refine ⟨first ++ rest, hrest.trans ?_⟩
    rw [hfirst, Segmenter.after_append]

end FrameReader

end WarcStream
