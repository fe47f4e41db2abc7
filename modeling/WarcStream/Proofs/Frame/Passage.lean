import WarcStream.Proofs.Frame.Reading
import WarcStream.Proofs.Transport.Passage
/-!
# One call of a frame reader on any source

The source of a reader may end or fail at any octet, and runs may be over the
limit. `Passed` are all the ways in which a call can then come to its answer,
with what the source brought meanwhile, and `passed_next` says that there are no
others. What a call takes from the front of its stream is put in terms of the
runs of the stream: `Sheds`.
-/

namespace WarcStream

open Transport Bytes

namespace Bytes

variable {d : UInt8} {xs ys zs run after : Bytes} {segments segments' : List Bytes}

/-- However a stream goes on that starts with `xs`, the closed runs of it that are not blank are
these segments, and then those of the stream that starts with `ys` instead. Behind the last
delimiter the two are the same. -/
def Sheds (d : UInt8) (xs : Bytes) (segments : List Bytes) (ys : Bytes) : Prop :=
  ∀ more, solid (closedRuns d (xs ++ more)) = segments ++ solid (closedRuns d (ys ++ more)) ∧
    openRun d (xs ++ more) = openRun d (ys ++ more)

theorem Sheds.trans (h : Sheds d xs segments ys) (h' : Sheds d ys segments' zs) :
    Sheds d xs (segments ++ segments') zs := by
  intro more
  rw [(h more).1, (h' more).1, (h more).2, (h' more).2, List.append_assoc]
  exact ⟨rfl, rfl⟩

/-- What arrives behind the start of a stream changes nothing in front of it. -/
theorem Sheds.append (h : Sheds d xs segments ys) (octets : Bytes) :
    Sheds d (xs ++ octets) segments (ys ++ octets) := by
  intro more
  rw [List.append_assoc, List.append_assoc]
  exact h (octets ++ more)

theorem sheds_of_run (hrun : d ∉ run) : Sheds d (run ++ d :: after) (solid [run]) after := by
  intro more
  rw [List.append_assoc, List.cons_append, closedRuns_append_cons hrun, openRun_append_cons hrun,
    ← List.singleton_append, solid_append]
  exact ⟨rfl, rfl⟩

theorem solid_singleton (h : allBlank run = false) : solid [run] = [run] := by
  simp [solid, h]

/-- Blank runs leave no segment. -/
theorem sheds_of_blanks {blanks : List Bytes} (h : ∀ run ∈ blanks, allBlank run = true ∧ d ∉ run) :
    Sheds d (closing d blanks ++ after) [] after := by
  induction blanks with
  | nil => exact fun more => ⟨rfl, rfl⟩
  | cons run blanks ih =>
    obtain ⟨hblank, hrun⟩ := h run List.mem_cons_self
    have hfirst : Sheds d (run ++ d :: (closing d blanks ++ after)) (solid [run])
        (closing d blanks ++ after) := sheds_of_run hrun
    have hnone : solid [run] = [] := by simp [solid, hblank]
    rw [hnone] at hfirst
    rw [closing_cons]
    exact hfirst.trans (ih fun run' hrun' => h run' (List.mem_cons_of_mem run hrun'))

end Bytes

namespace Segmenter

variable {s later : Segmenter} {segment : Bytes} {e : FrameError}

/-- A segmenter that waits has dropped blank runs, and holds no delimiter. -/
theorem sheds_of_next_none (hs : s.Searched) (h : s.next = (.ok none, later)) :
    Sheds s.framing.delimiter s.buffer [] later.buffer ∧ s.framing.delimiter ∉ later.buffer := by
  obtain ⟨blanks, rest, hb, hblanks, ⟨hrest, hnext⟩ | ⟨run, after, -, -, -, hnext⟩⟩ :=
    next_cases hs
  · have hbuffer : later.buffer = rest := by
      rw [h] at hnext
      exact congrArg Segmenter.buffer (Prod.mk.inj hnext).2
    rw [hbuffer, hb]
    exact ⟨sheds_of_blanks hblanks, hrest⟩
  · rw [h] at hnext
    exact absurd (Prod.mk.inj hnext).1.symm (answer_ne_none s.limit run)

/-- A segmenter that hands out a segment has dropped it, and blank runs before it. -/
theorem sheds_of_next_some (hs : s.Searched) (h : s.next = (.ok (some segment), later)) :
    Sheds s.framing.delimiter s.buffer [segment] later.buffer := by
  obtain ⟨blanks, rest, hb, hblanks, ⟨-, hnext⟩ | ⟨run, after, rfl, hrun, hblank, hnext⟩⟩ :=
    next_cases hs
  · rw [h] at hnext
    have hanswer := (Prod.mk.inj hnext).1
    split at hanswer <;> cases hanswer
  · rw [h] at hnext
    obtain ⟨hanswer, hlater⟩ := Prod.mk.inj hnext
    have hsegment : segment = run := by
      split at hanswer <;> cases hanswer
      rfl
    have hbuffer : later.buffer = after := congrArg Segmenter.buffer hlater
    rw [hsegment, hbuffer, hb, ← List.nil_append [run], ← solid_singleton hblank]
    exact (sheds_of_blanks hblanks).trans (sheds_of_run hrun)

/-- All that a segmenter can report is a run over the limit, -/
theorem tooLarge_of_next_error (h : s.next.1 = .error e) : ∃ size, e = .tooLarge size s.limit := by
  fun_induction Segmenter.next s with
  | case1 s hcut waiting hlarge =>
    cases h
    exact ⟨_, rfl⟩
  | case2 => cases h
  | case3 s segment after hcut rest hblank ih => exact ih h
  | case4 s segment after hcut rest hblank hlarge =>
    cases h
    exact ⟨_, rfl⟩
  | case5 => cases h

/-- and so at the end of the stream. -/
theorem tooLarge_of_last_error (h : s.last.1 = .error e) : ∃ size, e = .tooLarge size s.limit := by
  match hnext : s.next with
  | (.ok none, waiting) =>
    rw [last_of_waiting hnext] at h
    dsimp only at h
    split at h <;> cases h
  | (.ok (some segment), waiting) =>
    rw [last_of_answer hnext (by simp)] at h
    cases h
  | (.error e', waiting) =>
    rw [last_of_answer hnext (by simp)] at h
    cases h
    exact tooLarge_of_next_error (by rw [hnext])

end Segmenter

namespace FrameReader

variable {r mid later : FrameReader} {piece brought rest : Bytes}
variable {answer : Except FrameError (Option Bytes)}

/-- A reader that is still to read and has searched rightly what it holds. -/
structure Open (r : FrameReader) : Prop where
  searched : r.segmenter.Searched
  room_pos : 0 < r.room
  not_ended : r.ended = false

/-- **All that one call can come to**, with the octets that the source brought meanwhile. -/
inductive Passed (r : FrameReader) : Except FrameError (Option Bytes) → Bytes → FrameReader → Prop
  /-- The next segment is handed out. -/
  | segment {segment brought : Bytes} {later : FrameReader} :
      r.source.Passage brought none later.source →
      Sheds r.segmenter.framing.delimiter (r.segmenter.buffer ++ brought) [segment]
        later.segmenter.buffer →
      later.Open → later.segmenter.framing = r.segmenter.framing →
      Passed r (.ok (some segment)) brought later
  /-- A run over the limit is refused. -/
  | tooLarge {size : Nat} {brought : Bytes} {later : FrameReader} :
      r.source.Passage brought none later.source →
      Passed r (.error (.tooLarge size r.segmenter.limit)) brought later
  /-- The source failed when there was no delimiter at hand. -/
  | failed {f : Fault} {rest brought : Bytes} {later : FrameReader} :
      r.source.Passage brought (some (.failed f)) later.source →
      Sheds r.segmenter.framing.delimiter (r.segmenter.buffer ++ brought) [] rest →
      r.segmenter.framing.delimiter ∉ rest → Passed r (.error (.transport f)) brought later
  /-- The source ended. -/
  | ended {answer : Except FrameError (Option Bytes)} {brought : Bytes} {later : FrameReader} :
      r.source.Passage brought (some .ended) later.source → later.ended = true →
      (∀ e, answer = .error e → ∃ size limit, e = .tooLarge size limit) →
      Passed r answer brought later

/-- What a call comes to behind a read that brought a piece, or was interrupted, is what it comes
to. -/
theorem Passed.behind (h : mid.Passed answer brought later)
    (hpassage : r.source.Passage piece none mid.source)
    (hsheds : Sheds r.segmenter.framing.delimiter (r.segmenter.buffer ++ piece) []
      mid.segmenter.buffer)
    (hframing : mid.segmenter.framing = r.segmenter.framing)
    (hlimit : mid.segmenter.limit = r.segmenter.limit) :
    r.Passed answer (piece ++ brought) later := by
  have hfront {segments : List Bytes} {ys : Bytes}
      (h : Sheds mid.segmenter.framing.delimiter (mid.segmenter.buffer ++ brought) segments ys) :
      Sheds r.segmenter.framing.delimiter (r.segmenter.buffer ++ (piece ++ brought)) segments
        ys := by
    rw [← List.append_assoc, ← List.nil_append segments]
    rw [hframing] at h
    exact (hsheds.append brought).trans h
  cases h with
  | segment hrest hsegment hopen hsame =>
    exact .segment (hpassage.trans hrest) (hfront hsegment) hopen (hsame.trans hframing)
  | tooLarge hrest =>
    rw [hlimit]
    exact .tooLarge (hpassage.trans hrest)
  | failed hrest hnone hnotMem =>
    rw [hframing] at hnotMem
    exact .failed (hpassage.trans hrest) (hfront hnone) hnotMem
  | ended hrest hended hanswer => exact .ended (hpassage.trans hrest) hended hanswer

/-- **One call on any source.** -/
theorem passed_next (h : r.Open) : ∃ brought, r.Passed r.next.1 brought r.next.2 := by
  -- along the reads, each of which lowers the weight of the source
  induction hn : r.source.weight using Nat.strongRecOn generalizing r with
  | _ n ih =>
    obtain ⟨hsearched, hroom, hended⟩ := h
    obtain ⟨blanks, rest, hb, hblanks, ⟨hrest, hnext⟩ | ⟨run, after, rfl, hrun, hblank, hnext⟩⟩ :=
      Segmenter.next_cases hsearched
    · have hsheds : Sheds r.segmenter.framing.delimiter r.segmenter.buffer [] rest := by
        rw [hb]
        exact sheds_of_blanks hblanks
      by_cases hlarge : r.segmenter.limit < rest.length
      · rw [if_pos hlarge] at hnext
        rw [next_of_answer hnext (by simp)]
        exact ⟨[], .tooLarge (.still _)⟩
      · rw [if_neg hlarge] at hnext
        -- the segmenter waits, and the call makes a read
        match hread : r.source.read r.room with
        | (.ok [], source) =>
          rw [next_of_end hended hnext hread]
          refine ⟨[], .ended (.ended hroom hread) rfl fun e he => ?_⟩
          obtain ⟨size, hsize⟩ := Segmenter.tooLarge_of_last_error he
          exact ⟨size, _, hsize⟩
        | (.ok (x :: octets), source) =>
          have hsome : x :: octets ≠ [] := List.cons_ne_nil x octets
          rw [next_of_octets hended hnext hread hsome]
          have hless := Source.read_weight_lt_of_ok hread hsome
          obtain ⟨brought, hpassed⟩ := ih source.weight (hn ▸ hless)
            (r := { r with segmenter := (r.segmenter.behind rest).waiting.feed (x :: octets), source })
            ⟨(Segmenter.searched_waiting hrest).feed _, hroom, hended⟩ rfl
          exact ⟨_, hpassed.behind (Source.passage_of_octets hread hsome)
            (hsheds.append (x :: octets)) rfl rfl⟩
        | (.error f, source) =>
          cases hint : f.isInterruption with
          | true =>
            rw [next_of_interruption hended hnext hread hint]
            have hless := Source.read_weight_lt_of_error hread
            obtain ⟨brought, hpassed⟩ := ih source.weight (hn ▸ hless)
              (r := { r with segmenter := (r.segmenter.behind rest).waiting, source })
              ⟨Segmenter.searched_waiting hrest, hroom, hended⟩ rfl
            refine ⟨_, hpassed.behind (Source.passage_of_interruption hread hint) ?_ rfl rfl⟩
            rw [List.append_nil]
            exact hsheds
          | false =>
            rw [next_of_failure hended hnext hread (by simp [hint])]
            refine ⟨[], .failed (.failed hread hint) ?_ hrest⟩
            rw [List.append_nil]
            exact hsheds
    · have hsheds : Sheds r.segmenter.framing.delimiter r.segmenter.buffer [run] after := by
        rw [hb, ← List.nil_append [run], ← solid_singleton hblank]
        exact (sheds_of_blanks hblanks).trans (sheds_of_run hrun)
      by_cases hlarge : r.segmenter.limit < run.length
      · rw [if_pos hlarge] at hnext
        rw [next_of_answer hnext (by simp)]
        exact ⟨[], .tooLarge (.still _)⟩
      · rw [if_neg hlarge] at hnext
        rw [next_of_answer hnext (by simp)]
        refine ⟨[], .segment (.still _) ?_ ⟨Segmenter.searched_behind _ after, hroom, hended⟩ rfl⟩
        rw [List.append_nil]
        exact hsheds

end FrameReader

end WarcStream
