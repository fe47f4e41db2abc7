import WarcStream.Frame.Reader
import WarcStream.Proofs.Frame.Runs
import WarcStream.Proofs.Transport.Delivery
/-!
# One call of a frame reader

A call of a reader asks its segmenter, and reads from the source as long as
the segmenter waits. Each way a call can begin has its equation here, so that
no proof about readers opens the loop. `answers` are the answers to any number of
calls, and `after` is the reader behind them.
-/

namespace WarcStream

open Transport Bytes

namespace Segmenter

variable {s waiting : Segmenter}

/-- At the end of the stream the run behind the last delimiter is a segment too. -/
theorem last_of_waiting (h : s.next = (.ok none, waiting)) :
    s.last =
      (if allBlank waiting.buffer then .ok none else .ok (some waiting.buffer),
        waiting.behind []) := by
  rw [last, h]
  simp only [behind]
  split <;> rfl

/-- Anything but waiting is the answer at the end of the stream as well. -/
theorem last_of_answer {answer : Except FrameError (Option Bytes)} (h : s.next = (answer, waiting))
    (hsome : answer ≠ .ok none) : s.last = (answer, waiting) := by
  rw [last]
  split
  · rename_i later hnext
    rw [h] at hnext
    exact absurd (Prod.mk.inj hnext).1 hsome
  · exact h

/-- A run that is refused or handed out is an answer. -/
theorem answer_ne_none (limit : Nat) (run : Bytes) :
    (if limit < run.length then Except.error (FrameError.tooLarge run.length limit)
      else Except.ok (some run)) ≠ .ok none := by
  split <;> simp

/-- The end of the stream makes a difference to the buffer only: it may leave it empty. -/
theorem last_eq_or (s : Segmenter) : s.last.2 = s.next.2 ∨ s.last.2 = s.next.2.behind [] := by
  match hnext : s.next with
  | (.ok none, waiting) => exact .inr (by rw [last_of_waiting hnext])
  | (.ok (some segment), later) => exact .inl (by rw [last_of_answer hnext (by simp)])
  | (.error e, later) => exact .inl (by rw [last_of_answer hnext (by simp)])

/-- Handing out segments keeps the framing -/
theorem framing_next (s : Segmenter) : s.next.2.framing = s.framing := by
  fun_induction next s with
  | case3 s segment after hcut rest hblank ih => exact ih
  | case1 | case2 | case4 | case5 => rfl

theorem framing_last (s : Segmenter) : s.last.2.framing = s.framing := by
  rcases s.last_eq_or with h | h
  · rw [h, s.framing_next]
  · rw [h, behind, s.framing_next]

/-- and the limit. -/
theorem limit_next (s : Segmenter) : s.next.2.limit = s.limit := by
  fun_induction next s with
  | case3 s segment after hcut rest hblank ih => exact ih
  | case1 | case2 | case4 | case5 => rfl

theorem limit_last (s : Segmenter) : s.last.2.limit = s.limit := by
  rcases s.last_eq_or with h | h
  · rw [h, s.limit_next]
  · rw [h, behind, s.limit_next]

end Segmenter

namespace FrameReader

variable {r : FrameReader} {waiting : Segmenter} {source : Source}

/-- The answers to the next `n` calls. -/
def answers : Nat → FrameReader → List (Except FrameError (Option Bytes))
  | 0, _ => []
  | n + 1, r => r.next.1 :: answers n r.next.2

/-- The reader after the next `n` calls. -/
def after : Nat → FrameReader → FrameReader
  | 0, r => r
  | n + 1, r => after n r.next.2

theorem next_of_ended (h : r.ended = true) : r.next = r.last := by
  rw [next, if_pos h]

/-- A segment or an error of the segmenter is the answer, and nothing is read. -/
theorem next_of_answer {answer : Except FrameError (Option Bytes)} {segmenter : Segmenter}
    (h : r.segmenter.next = (answer, segmenter)) (hsome : answer ≠ .ok none) :
    r.next = (answer, { r with segmenter }) := by
  cases hended : r.ended with
  | true => rw [next_of_ended hended, last, Segmenter.last_of_answer h hsome, hended]
  | false =>
    rw [next, if_neg (by simp [hended])]
    split
    · rename_i later heq
      rw [h] at heq
      exact absurd (Prod.mk.inj heq).1 hsome
    · rename_i found later _ heq
      rw [h] at heq
      obtain ⟨rfl, rfl⟩ := Prod.mk.inj heq
      rw [hended]

/-- The equation of a call whose segmenter waits. -/
theorem next_of_waiting (hended : r.ended = false)
    (hnext : r.segmenter.next = (.ok none, waiting)) :
    r.next =
      match r.source.read r.room with
      | (.error f, source) =>
        if f.isInterruption then FrameReader.next { r with segmenter := waiting, source }
        else (.error (.transport f), { r with segmenter := waiting, source })
      | (.ok octets, source) =>
        if octets = [] then (r.close waiting source).last
        else FrameReader.next { r with segmenter := waiting.feed octets, source } := by
  rw [next, if_neg (by simp [hended])]
  split
  · rename_i later heq
    rw [hnext] at heq
    obtain ⟨-, rfl⟩ := Prod.mk.inj heq
    generalize r.source.read r.room = arrival
    obtain ⟨f | octets, source⟩ := arrival
    · rfl
    · rfl
  · rename_i answer later hsome heq
    rw [hnext] at heq
    exact absurd (Prod.mk.inj heq).1.symm hsome

theorem next_of_interruption {f : Fault} (hended : r.ended = false)
    (hnext : r.segmenter.next = (.ok none, waiting))
    (hread : r.source.read r.room = (.error f, source)) (hint : f.isInterruption = true) :
    r.next = FrameReader.next { r with segmenter := waiting, source } := by
  rw [next_of_waiting hended hnext, hread]
  exact if_pos hint

theorem next_of_failure {f : Fault} (hended : r.ended = false)
    (hnext : r.segmenter.next = (.ok none, waiting))
    (hread : r.source.read r.room = (.error f, source)) (hint : ¬ f.isInterruption = true) :
    r.next = (.error (.transport f), { r with segmenter := waiting, source }) := by
  rw [next_of_waiting hended hnext, hread]
  exact if_neg hint

theorem next_of_end (hended : r.ended = false) (hnext : r.segmenter.next = (.ok none, waiting))
    (hread : r.source.read r.room = (.ok [], source)) :
    r.next = (r.close waiting source).last := by
  rw [next_of_waiting hended hnext, hread]
  exact if_pos rfl

theorem next_of_octets {octets : Bytes} (hended : r.ended = false)
    (hnext : r.segmenter.next = (.ok none, waiting))
    (hread : r.source.read r.room = (.ok octets, source)) (hsome : octets ≠ []) :
    r.next = FrameReader.next { r with segmenter := waiting.feed octets, source } := by
  rw [next_of_waiting hended hnext, hread]
  exact if_neg hsome

/-- A source that is at its end leaves the run behind the last delimiter. -/
theorem next_of_drained (hdrained : r.ended = true ∨ r.source.script = [])
    (hnext : r.segmenter.next = (.ok none, waiting)) (hagain : waiting.next = (.ok none, waiting)) :
    ∃ later, r.next =
        (if allBlank waiting.buffer then .ok none else .ok (some waiting.buffer), later) ∧
      later.ended = true ∧ later.segmenter = waiting.behind [] := by
  cases hended : r.ended with
  | true =>
    refine ⟨{ r with segmenter := waiting.behind [] }, ?_, hended, rfl⟩
    rw [next_of_ended hended, last, Segmenter.last_of_waiting hnext]
  | false =>
    have hscript : r.source.script = [] := by simpa [hended] using hdrained
    have hread : ∃ source, r.source.read r.room = (.ok [], source) := by
      simp [Source.read, hscript]
    obtain ⟨source, hread⟩ := hread
    refine ⟨{ r.close waiting source with segmenter := waiting.behind [] }, ?_, rfl, rfl⟩
    have hlast : (r.close waiting source).last =
        (waiting.last.1, { r.close waiting source with segmenter := waiting.last.2 }) := rfl
    rw [next_of_end hended hnext hread, hlast, Segmenter.last_of_waiting hagain]

end FrameReader

end WarcStream
