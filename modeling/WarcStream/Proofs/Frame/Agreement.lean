import WarcStream.Proofs.Frame.Passage
import WarcStream.Proofs.Frame.Searching
import WarcStream.Proofs.Transport.Agreement
/-!
# Frame readers whose sources agree at first

What is behind the delimiter of a segment makes no difference to the segment or
to those before it. `Agrees n` relates two readers whose sources agree on octets
that close `n` segments: either these octets have not all been read, and the
readers hold the same, or they have, and the buffers start with them. A call is
then answered alike, and a segment that it hands out leaves `n - 1` of them
(`Agrees.next`).
-/

namespace WarcStream

open Transport Bytes

namespace Segmenter

variable {s : Segmenter} {run after q : Bytes} {blanks : List Bytes}

/-- Blank runs are dropped in front of a run that is handed out or refused. -/
theorem next_of_closing (hs : s.Searched)
    (hb : s.buffer = closing s.framing.delimiter blanks ++ (run ++ s.framing.delimiter :: after))
    (hblanks : ∀ run ∈ blanks, allBlank run = true ∧ s.framing.delimiter ∉ run)
    (hrun : s.framing.delimiter ∉ run) (hsolid : allBlank run = false) :
    s.next =
      (if s.limit < run.length then .error (.tooLarge run.length s.limit) else .ok (some run),
        s.behind after) := by
  induction blanks generalizing s with
  | nil =>
    rw [next_of_append hs hb hrun, hsolid, if_neg Bool.false_ne_true]
    split <;> rfl
  | cons blank blanks ih =>
    obtain ⟨hblank, hnotMem⟩ := hblanks blank List.mem_cons_self
    rw [closing_cons] at hb
    rw [next_of_append hs hb hnotMem, hblank, if_pos rfl]
    exact ih (s.searched_behind _) rfl (fun r hr => hblanks r (List.mem_cons_of_mem blank hr)) hrun

/-- **Octets that close a segment** decide what a segmenter does that holds them, whatever it holds
behind them. -/
theorem exists_next_of_closed (framing : Framing)
    (hclosed : solid (closedRuns framing.delimiter q) ≠ []) :
    ∃ run after,
      solid (closedRuns framing.delimiter q) = run :: solid (closedRuns framing.delimiter after) ∧
      ∀ (s : Segmenter) (more : Bytes), s.Searched → s.framing = framing → s.buffer = q ++ more →
        s.next =
          (if s.limit < run.length then .error (.tooLarge run.length s.limit) else .ok (some run),
            s.behind (after ++ more)) := by
  let front : Segmenter := { framing, limit := 0, buffer := q }
  obtain ⟨blanks, rest, hb, hblanks, ⟨hrest, -⟩ | ⟨run, after, rfl, hrun, hsolid, -⟩⟩ :=
    next_cases (s := front) (searched_of_zero rfl)
  · -- blank runs alone close no segment
    have hsheds : Sheds framing.delimiter q [] rest := by
      rw [show q = _ from hb]
      exact sheds_of_blanks hblanks
    have hnone := (hsheds []).1
    rw [List.append_nil, List.append_nil, closedRuns_of_notMem hrest] at hnone
    exact absurd hnone hclosed
  · refine ⟨run, after, ?_, ?_⟩
    · have hsheds : Sheds framing.delimiter q [run] after := by
        rw [show q = _ from hb, ← List.nil_append [run], ← solid_singleton hsolid]
        exact (sheds_of_blanks hblanks).trans (sheds_of_run hrun)
      have hsplit := (hsheds []).1
      rwa [List.append_nil, List.append_nil] at hsplit
    · rintro s more hs rfl hbuffer
      have hq : q = closing s.framing.delimiter blanks ++ (run ++ s.framing.delimiter :: after) := hb
      refine next_of_closing hs ?_ hblanks hrun hsolid
      rw [hbuffer, hq]
      simp only [List.append_assoc, List.cons_append]

/-- What a segmenter hands out is the first of the segments that are closed, and the others are
closed still, whatever is fed to it. -/
theorem closed_next (hs : s.Searched) {segment? : Option Bytes} {later : Segmenter}
    (h : s.next = (.ok segment?, later)) (p : Bytes) :
    later.Searched ∧ later.framing = s.framing ∧
      solid (closedRuns s.framing.delimiter (s.buffer ++ p)) =
        segment?.toList ++ solid (closedRuns s.framing.delimiter (later.buffer ++ p)) := by
  have hkept := hs.next.2.2
  have hframing := s.framing_next
  rw [h] at hkept hframing
  have hsheds : Sheds s.framing.delimiter s.buffer segment?.toList later.buffer := by
    cases segment? with
    | none => exact (sheds_of_next_none hs h).1
    | some segment => exact sheds_of_next_some hs h
  exact ⟨hkept, hframing, (hsheds p).1⟩

end Segmenter

namespace FrameReader

variable {r r' : FrameReader} {n : Nat}

/-- **The readers agree on `n` segments** at least: the octets that close them are in front of both
buffers, or the readers are the same but for their sources, which agree on them. -/
inductive Agrees (n : Nat) : FrameReader → FrameReader → Prop
  /-- The octets have been read. -/
  | held {r r' : FrameReader} {q more more' : Bytes} :
      r.segmenter.Searched → r'.segmenter.Searched →
      r'.segmenter.framing = r.segmenter.framing → r'.segmenter.limit = r.segmenter.limit →
      r.segmenter.buffer = q ++ more → r'.segmenter.buffer = q ++ more' →
      n ≤ (solid (closedRuns r.segmenter.framing.delimiter q)).length → Agrees n r r'
  /-- Some of them are still to be read. -/
  | fed {r : FrameReader} {source : Source} {p : Bytes} :
      r.Open → Source.Agrees p r.source source →
      n ≤ (solid (closedRuns r.segmenter.framing.delimiter (r.segmenter.buffer ++ p))).length →
      Agrees n r { r with source }

/-- Where the octets have been read, a call is answered out of the buffer. -/
theorem next_of_held {q more more' : Bytes} (hs : r.segmenter.Searched)
    (hs' : r'.segmenter.Searched) (hframing : r'.segmenter.framing = r.segmenter.framing)
    (hlimit : r'.segmenter.limit = r.segmenter.limit) (hb : r.segmenter.buffer = q ++ more)
    (hb' : r'.segmenter.buffer = q ++ more')
    (hclosed : n + 1 ≤ (solid (closedRuns r.segmenter.framing.delimiter q)).length) :
    r.next.1 = r'.next.1 ∧ Agrees n r.next.2 r'.next.2 := by
  have hsome : solid (closedRuns r.segmenter.framing.delimiter q) ≠ [] := by
    rw [← List.length_pos_iff]
    omega
  obtain ⟨run, after, hsplit, hnext⟩ :=
    Segmenter.exists_next_of_closed r.segmenter.framing hsome
  have hleft := hnext r.segmenter more hs rfl hb
  have hright := hnext r'.segmenter more' hs' hframing hb'
  rw [next_of_answer hleft (Segmenter.answer_ne_none _ _),
    next_of_answer hright (Segmenter.answer_ne_none _ _), hlimit]
  refine ⟨rfl, .held (Segmenter.searched_behind _ _) (Segmenter.searched_behind _ _) hframing hlimit
    rfl rfl ?_⟩
  rw [hsplit, List.length_cons] at hclosed
  exact Nat.le_of_succ_le_succ hclosed

/-- A reader that is fed goes on like another as long as their sources agree. -/
theorem next_of_fed {source : Source} {p : Bytes} (h : r.Open)
    (hagrees : Source.Agrees p r.source source)
    (hclosed : n + 1 ≤
      (solid (closedRuns r.segmenter.framing.delimiter (r.segmenter.buffer ++ p))).length) :
    r.next.1 = (next { r with source }).1 ∧
      ∀ segment, r.next.1 = .ok (some segment) → Agrees n r.next.2 (next { r with source }).2 := by
  -- along the reads, each of which lowers the weight of the source
  induction hn : r.source.weight using Nat.strongRecOn generalizing r source p with
  | _ weight ih =>
    obtain ⟨hsearched, hroom, hended⟩ := h
    match hnext : r.segmenter.next with
    | (.ok none, waiting) =>
      obtain ⟨hwaiting, hframing, hcount⟩ := Segmenter.closed_next hsearched hnext p
      have hnotMem := (Segmenter.sheds_of_next_none hsearched hnext).2
      rw [hcount, Option.toList_none, List.nil_append] at hclosed
      have hp : p ≠ [] := by
        rintro rfl
        rw [List.append_nil, closedRuns_of_notMem hnotMem] at hclosed
        exact absurd hclosed (Nat.not_succ_le_zero n)
      rcases hagrees.read_cases hp hroom with
        ⟨f, later, later', hread, hread', hlater⟩ |
          ⟨piece, rest, later, later', hpiece, rfl, hread, hread', hlater⟩ |
            ⟨more, more', later, later', hread, hread'⟩
      · cases hint : f.isInterruption with
        | true =>
          rw [next_of_interruption hended hnext hread hint,
            next_of_interruption (r := { r with source }) hended hnext hread' hint]
          exact ih later.weight (hn ▸ Source.read_weight_lt_of_error hread)
            (r := { r with segmenter := waiting, source := later }) ⟨hwaiting, hroom, hended⟩
            hlater (by rwa [hframing]) rfl
        | false =>
          rw [next_of_failure hended hnext hread (by simp [hint]),
            next_of_failure (r := { r with source }) hended hnext hread' (by simp [hint])]
          exact ⟨rfl, nofun⟩
      · rw [next_of_octets hended hnext hread hpiece,
          next_of_octets (r := { r with source }) hended hnext hread' hpiece]
        refine ih later.weight (hn ▸ Source.read_weight_lt_of_ok hread hpiece)
          (r := { r with segmenter := waiting.feed piece, source := later })
          ⟨hwaiting.feed piece, hroom, hended⟩ hlater ?_ rfl
        rw [← List.append_assoc, ← hframing] at hclosed
        exact hclosed
      · -- the octets have been read, and what is behind them makes no difference
        have hsome (more : Bytes) : p ++ more ≠ [] := List.append_ne_nil_of_left_ne_nil hp more
        rw [next_of_octets hended hnext hread (hsome more),
          next_of_octets (r := { r with source }) hended hnext hread' (hsome more')]
        let left : FrameReader := { r with segmenter := waiting.feed (p ++ more), source := later }
        let right : FrameReader := { r with segmenter := waiting.feed (p ++ more'), source := later' }
        rw [← hframing] at hclosed
        have hheld : left.next.1 = right.next.1 ∧ Agrees n left.next.2 right.next.2 :=
          next_of_held (q := waiting.buffer ++ p) (hwaiting.feed _) (hwaiting.feed _) rfl rfl
            (List.append_assoc _ _ _).symm (List.append_assoc _ _ _).symm hclosed
        exact ⟨hheld.1, fun _ _ => hheld.2⟩
    | (.ok (some segment), later) =>
      obtain ⟨hlater, hframing, hcount⟩ := Segmenter.closed_next hsearched hnext p
      rw [hcount, Option.toList_some, List.length_append, List.length_singleton,
        Nat.add_comm 1] at hclosed
      rw [next_of_answer hnext (by simp), next_of_answer (r := { r with source }) hnext (by simp)]
      refine ⟨rfl, fun _ _ => ?_⟩
      refine Agrees.fed (r := { r with segmenter := later }) ⟨hlater, hroom, hended⟩ hagrees ?_
      rw [hframing]
      exact Nat.le_of_succ_le_succ hclosed
    | (.error e, later) =>
      rw [next_of_answer hnext (by simp), next_of_answer (r := { r with source }) hnext (by simp)]
      exact ⟨rfl, nofun⟩

/-- **One call.** Readers that agree on a segment answer alike, and a segment that is handed out
leaves them agreed on those behind it. -/
theorem Agrees.next (h : Agrees (n + 1) r r') :
    r.next.1 = r'.next.1 ∧ ∀ segment, r.next.1 = .ok (some segment) → Agrees n r.next.2 r'.next.2 := by
  cases h with
  | held hs hs' hframing hlimit hb hb' hclosed =>
    obtain ⟨hanswer, hlater⟩ := next_of_held hs hs' hframing hlimit hb hb' hclosed
    exact ⟨hanswer, fun _ _ => hlater⟩
  | fed hopen hagrees hclosed => exact next_of_fed hopen hagrees hclosed

/-- Readers with nothing read agree on the segments that the octets close on which their sources
agree. -/
theorem agrees_ofConfig {c : FrameConfig} {s s' : Source} {p : Bytes} (hagrees : Source.Agrees p s s')
    (hclosed : n ≤ (solid (closedRuns c.framing.delimiter p)).length) :
    Agrees n (ofConfig c s) (ofConfig c s') :=
  .fed (r := ofConfig c s) ⟨Segmenter.searched_of_zero rfl, Nat.le_max_right c.chunk 1, rfl⟩ hagrees
    hclosed

end FrameReader

end WarcStream
