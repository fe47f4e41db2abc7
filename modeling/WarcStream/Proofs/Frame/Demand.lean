import Mathlib.Order.Bounds.Basic
import WarcStream.Proofs.Frame.Passage
import WarcStream.Proofs.Frame.Reassembly
/-!
# When a frame reader reads

A source answers each read in turn: `Source.replies` are its answers to the
first reads, whoever makes them. `AtHand` says of some of them that they leave
nothing to wait for: they close the next segment, or one of them is the end of
the stream. `Frugal` is the invariant of a reader that has made so many reads
and handed out these segments, and made no read when the segment that was then
due was at hand. A call keeps it (`Frugal.next`), and so do any number of calls.
So a segment is handed out behind the least number of reads that put it at hand
(`reads_least`).
-/

namespace WarcStream

open Transport Bytes

/-! ## The reads of a source -/

namespace Transport.Source

variable {s : Source} {room n : Nat}

/-- The source behind its first `n` reads. -/
def advance (s : Source) (room : Nat) : Nat → Source
  | 0 => s
  | n + 1 => ((s.advance room n).read room).2

/-- The answers to the first `n` reads. -/
def replies (s : Source) (room n : Nat) : List (Except Fault Bytes) :=
  (List.range n).map fun i => ((s.advance room i).read room).1

theorem replies_succ (s : Source) (room n : Nat) :
    s.replies room (n + 1) = s.replies room n ++ [((s.advance room n).read room).1] := by
  rw [replies, replies, List.range_succ, List.map_append]
  rfl

/-- Every read is counted. -/
theorem reads_read (s : Source) (room : Nat) : (s.read room).2.reads = s.reads + 1 := by
  unfold read
  split
  · rfl
  · rfl
  · split <;> rfl

theorem reads_advance (s : Source) (room n : Nat) : (s.advance room n).reads = s.reads + n := by
  induction n with
  | zero => rfl
  | succ n ih => rw [advance, reads_read, ih, Nat.add_assoc]

end Transport.Source

/-- The octets that answers to reads have brought. -/
def octetsIn (replies : List (Except Fault Bytes)) : Bytes := replies.flatMap fun
  | .ok octets => octets
  | .error _ => []

theorem octetsIn_append (xs ys : List (Except Fault Bytes)) :
    octetsIn (xs ++ ys) = octetsIn xs ++ octetsIn ys :=
  List.flatMap_append

/-- **Segment `i` is at hand**, counted from zero: the octets that have been brought close it, or a
read has met the end of the stream. -/
def AtHand (d : UInt8) (i : Nat) (replies : List (Except Fault Bytes)) : Prop :=
  i < (solid (closedRuns d (octetsIn replies))).length ∨ .ok [] ∈ replies

/-- The segments before one that is at hand are. -/
theorem AtHand.of_le {d : UInt8} {i j : Nat} {replies : List (Except Fault Bytes)}
    (h : AtHand d j replies) (hle : i ≤ j) : AtHand d i replies :=
  h.imp_left fun hlt => Nat.lt_of_le_of_lt hle hlt

/-- The segment that is handed out with an answer, if one is. -/
def segmentIn : Except FrameError (Option Bytes) → Option Bytes
  | .ok segment? => segment?
  | .error _ => none

namespace FrameReader

variable {c : FrameConfig} {s : Source} {r : FrameReader} {n n' : Nat} {segments : List Bytes}

/-! ## One call -/

/-- **A reader that reads no more than it needs**: it has made the first `n` reads of the source and
handed out these segments, what it holds is what the reads have brought and it has not handed out,
and none of the reads was made when the segment that is due now, or one before it, was at hand. -/
structure Frugal (c : FrameConfig) (s : Source) (n : Nat) (segments : List Bytes)
    (r : FrameReader) : Prop where
  sound : r.Sound
  delimiter_eq : r.delimiter = c.framing.delimiter
  room_eq : r.room = c.room
  source_eq : r.source = s.advance c.room n
  ended_iff : r.ended = true ↔ .ok [] ∈ s.replies c.room n
  sheds : r.ended = false →
    Sheds c.framing.delimiter (octetsIn (s.replies c.room n)) segments r.segmenter.buffer
  needed : ∀ m < n, ¬ AtHand c.framing.delimiter segments.length (s.replies c.room m)

/-- Where the reads have led when a call is answered. -/
inductive Drawn (c : FrameConfig) (s : Source) (segments : List Bytes) (n n' : Nat) :
    Except FrameError (Option Bytes) → Prop
  /-- They have put the segment at hand. -/
  | segment {segment : Bytes} :
      AtHand c.framing.delimiter segments.length (s.replies c.room n') →
      Drawn c s segments n n' (.ok (some segment))
  /-- One of them has met the end of the stream. -/
  | ended : .ok [] ∈ s.replies c.room n' → Drawn c s segments n n' (.ok none)
  /-- The last one has failed. -/
  | failed {f : Fault} :
      n < n' → (s.replies c.room n').getLast? = some (.error f) →
      Drawn c s segments n n' (.error (.transport f))

theorem Drawn.of_le {answer : Except FrameError (Option Bytes)} {m : Nat}
    (h : Drawn c s segments m n' answer) (hle : n ≤ m) : Drawn c s segments n n' answer := by
  cases h with
  | segment h => exact .segment h
  | ended h => exact .ended h
  | failed hlt h => exact .failed (Nat.lt_of_le_of_lt hle hlt) h

/-- The segments that are closed in the buffer are those that are at hand and have not been handed
out. -/
theorem Frugal.solid_eq (h : r.Frugal c s n segments) (hended : r.ended = false) :
    solid (closedRuns c.framing.delimiter (octetsIn (s.replies c.room n))) =
      segments ++ solid (closedRuns c.framing.delimiter r.segmenter.buffer) := by
  have hsheds := (h.sheds hended []).1
  rwa [List.append_nil, List.append_nil] at hsheds

/-- A segment that is closed in the buffer is at hand. -/
theorem Frugal.atHand_of_closed (h : r.Frugal c s n segments)
    (hclosed : solid (closedRuns c.framing.delimiter r.segmenter.buffer) ≠ []) :
    AtHand c.framing.delimiter segments.length (s.replies c.room n) := by
  cases hended : r.ended with
  | true => exact .inr (h.ended_iff.1 hended)
  | false =>
    refine .inl ?_
    rw [h.solid_eq hended, List.length_append]
    exact Nat.lt_add_of_pos_right (List.length_pos_iff.2 hclosed)

/-- While the segmenter waits and the stream has not ended, no segment is at hand. -/
theorem Frugal.not_atHand (h : r.Frugal c s n segments) (hended : r.ended = false)
    {waiting : Segmenter} (hnext : r.segmenter.next = (.ok none, waiting)) :
    ¬ AtHand c.framing.delimiter segments.length (s.replies c.room n) := by
  obtain ⟨hsheds, hnotMem⟩ := Segmenter.sheds_of_next_none h.sound.searched hnext
  have hnone : solid (closedRuns c.framing.delimiter r.segmenter.buffer) = [] := by
    have hclosed := (hsheds []).1
    rw [List.append_nil, List.append_nil, closedRuns_of_notMem hnotMem] at hclosed
    rw [← h.delimiter_eq]
    exact hclosed
  rintro (hlt | hend)
  · rw [h.solid_eq hended, hnone, List.append_nil] at hlt
    exact Nat.lt_irrefl _ hlt
  · rw [← h.ended_iff, hended] at hend
    cases hend

/-- A call that makes no read keeps to the invariant. -/
theorem Frugal.still (h : r.Frugal c s n segments) (segment? : Option Bytes) {later : FrameReader}
    (hsound : later.Sound) (hdelimiter : later.delimiter = r.delimiter)
    (hroom : later.room = r.room) (hsource : later.source = r.source)
    (hended : later.ended = r.ended)
    (hsheds : r.ended = false →
      Sheds r.delimiter r.segmenter.buffer segment?.toList later.segmenter.buffer) :
    later.Frugal c s n (segments ++ segment?.toList) where
  sound := hsound
  delimiter_eq := hdelimiter.trans h.delimiter_eq
  room_eq := hroom.trans h.room_eq
  source_eq := hsource.trans h.source_eq
  ended_iff := by rw [hended, h.ended_iff]
  sheds := by
    intro hopen
    rw [hended] at hopen
    rw [h.delimiter_eq] at hsheds
    exact (h.sheds hopen).trans (hsheds hopen)
  needed := by
    intro m hm hhand
    refine h.needed m hm (hhand.of_le ?_)
    rw [List.length_append]
    exact Nat.le_add_right _ _

/-- A read that the segmenter waits for keeps to the invariant. -/
theorem Frugal.behind_read (h : r.Frugal c s n segments) (hended : r.ended = false)
    {waiting : Segmenter} (hnext : r.segmenter.next = (.ok none, waiting))
    {reply : Except Fault Bytes} {next : Source} (hread : r.source.read r.room = (reply, next))
    {later : FrameReader} (hsound : later.Sound) (hdelimiter : later.delimiter = r.delimiter)
    (hroom : later.room = r.room) (hsource : later.source = next)
    (hend : later.ended = true ↔ reply = .ok [])
    (hbuffer : later.ended = false → later.segmenter.buffer = waiting.buffer ++ octetsIn [reply]) :
    later.Frugal c s (n + 1) segments := by
  have hread' : (s.advance c.room n).read c.room = (reply, next) := by
    rw [← h.source_eq, ← h.room_eq, hread]
  have hreplies : s.replies c.room (n + 1) = s.replies c.room n ++ [reply] := by
    rw [Source.replies_succ, hread']
  have hopen : .ok [] ∉ s.replies c.room n := by
    rw [← h.ended_iff, hended]
    exact Bool.false_ne_true
  constructor
  · exact hsound
  · exact hdelimiter.trans h.delimiter_eq
  · exact hroom.trans h.room_eq
  · rw [hsource, Source.advance, hread']
  · rw [hend, hreplies, List.mem_append, List.mem_singleton]
    simp only [hopen, false_or, eq_comm]
  · intro hlater
    have hwaiting : Sheds r.delimiter r.segmenter.buffer [] waiting.buffer :=
      (Segmenter.sheds_of_next_none h.sound.searched hnext).1
    rw [h.delimiter_eq] at hwaiting
    have hall := (h.sheds hended).trans hwaiting
    rw [hreplies, octetsIn_append, hbuffer hlater, ← List.append_nil segments]
    exact hall.append (octetsIn [reply])
  · intro m hm
    rcases Nat.lt_succ_iff_lt_or_eq.1 hm with hm | rfl
    · exact h.needed m hm
    · exact h.not_atHand hended hnext

/-- **A call behind the end of the stream** makes no read. -/
theorem Frugal.next_of_ended (h : r.Frugal c s n segments) (hended : r.ended = true) :
    r.next.2.Frugal c s n (segments ++ (segmentIn r.next.1).toList) ∧
      Drawn c s segments n n r.next.1 := by
  have hend : .ok [] ∈ s.replies c.room n := h.ended_iff.1 hended
  obtain ⟨later, hanswer, -, hsound⟩ := h.sound.next_eq
  have hlast : r.next = (r.segmenter.last.1, { r with segmenter := r.segmenter.last.2 }) :=
    FrameReader.next_of_ended hended
  constructor
  · refine h.still _ ?_ ?_ ?_ ?_ ?_ ?_
    · rw [hanswer]
      exact hsound
    · rw [hlast]
      exact congrArg Framing.delimiter r.segmenter.framing_last
    · rw [hlast]
    · rw [hlast]
    · rw [hlast]
    · intro hopen
      rw [hended] at hopen
      cases hopen
  · match hcase : r.next.1 with
    | .ok (some segment) => exact .segment (.inr hend)
    | .ok none => exact .ended hend
    | .error e =>
      -- a run over the limit is no answer of a reader within its limit
      rw [hanswer] at hcase
      have hlarge : r.segmenter.last.1 = .error e := by
        rw [← hcase, ← congrArg Prod.fst hanswer, hlast]
      obtain ⟨size, rfl⟩ := Segmenter.tooLarge_of_last_error hlarge
      match hreports : r.reports.head? with
      | none => simp [hreports, Report.answer] at hcase
      | some (.ok segment) => simp [hreports, Report.answer] at hcase
      | some (.error f) => simp [hreports, Report.answer] at hcase

/-- **One call** of a reader that reads no more than it needs. It makes no read when the segment
that is due is at hand, and what it answers is due to where the reads have led. -/
theorem Frugal.next (h : r.Frugal c s n segments) :
    ∃ n', n ≤ n' ∧ r.next.2.Frugal c s n' (segments ++ (segmentIn r.next.1).toList) ∧
      (∀ m < n', ¬ AtHand c.framing.delimiter segments.length (s.replies c.room m)) ∧
      Drawn c s segments n n' r.next.1 := by
  -- along the reads, each of which lowers the weight of the source
  induction hw : r.source.weight using Nat.strongRecOn generalizing r n with
  | _ weight ih =>
    cases hended : r.ended with
    | true => exact ⟨n, Nat.le_refl n, (h.next_of_ended hended).1, h.needed,
        (h.next_of_ended hended).2⟩
    | false =>
      rcases h.sound.segmenter_cases with ⟨rest, hwaits⟩ | ⟨segment, after, hnext, -, hfits⟩
      · have hnext := hwaits.next_eq
        -- a call behind one more read has read no less
        have hagain {later : FrameReader} (heq : r.next = later.next)
            (hless : later.source.weight < r.source.weight)
            (hlater : later.Frugal c s (n + 1) segments) :
            ∃ n', n ≤ n' ∧ r.next.2.Frugal c s n' (segments ++ (segmentIn r.next.1).toList) ∧
              (∀ m < n', ¬ AtHand c.framing.delimiter segments.length (s.replies c.room m)) ∧
              Drawn c s segments n n' r.next.1 := by
          obtain ⟨n', hle, hfrugal, hneeded, hdrawn⟩ :=
            ih later.source.weight (hw ▸ hless) hlater rfl
          rw [heq]
          exact ⟨n', by omega, hfrugal, hneeded, hdrawn.of_le (Nat.le_succ n)⟩
        rcases r.source.read_cases hwaits.room_pos with
          ⟨hlive, next, hread⟩ | ⟨f, next, hread, hlive⟩ | ⟨piece, next, hread, hpiece, hlive⟩
        · obtain ⟨hsound, -⟩ := hwaits.close hended hlive next
          have hclosed : (r.close (r.segmenter.behind rest).waiting next).Frugal c s (n + 1)
              segments :=
            h.behind_read hended hnext hread hsound rfl rfl rfl (by simp [close]) nofun
          obtain ⟨hlater, hdrawn⟩ := hclosed.next_of_ended rfl
          rw [next_of_end hended hnext hread, ← FrameReader.next_of_ended rfl]
          exact ⟨n + 1, Nat.le_succ n, hlater, hclosed.needed, hdrawn.of_le (Nat.le_succ n)⟩
        · have hfailed : (r.again rest next).Frugal c s (n + 1) segments :=
            h.behind_read hended hnext hread (hwaits.sound_again hended hlive) rfl rfl rfl
              (by simp [again, hended]) fun _ => (List.append_nil rest).symm
          by_cases hint : f.isInterruption = true
          · exact hagain (next_of_interruption hended hnext hread hint)
              (Source.read_weight_lt_of_error hread) hfailed
          · rw [next_of_failure hended hnext hread hint]
            refine ⟨n + 1, Nat.le_succ n, ?_, hfailed.needed, .failed (Nat.lt_succ_self n) ?_⟩
            · rw [segmentIn, Option.toList_none, List.append_nil]
              exact hfailed
            · rw [Source.replies_succ, ← h.source_eq, ← h.room_eq, hread, List.getLast?_concat]
        · obtain ⟨hsound, -⟩ := hwaits.feed hended hlive
          refine hagain (next_of_octets hended hnext hread hpiece)
            (Source.read_weight_lt_of_ok hread hpiece)
            (h.behind_read hended hnext hread hsound rfl rfl rfl (by simp [hended, hpiece])
              fun _ => ?_)
          simp [octetsIn, Segmenter.feed, Segmenter.waiting, Segmenter.behind]
      · -- a segment is handed out of the buffer, where it was at hand
        have hsheds : Sheds r.delimiter r.segmenter.buffer [segment] after :=
          Segmenter.sheds_of_next_some h.sound.searched hnext
        rw [next_of_answer hnext (by simp)]
        refine ⟨n, Nat.le_refl n, h.still (some segment) (h.sound.behind hfits) rfl rfl rfl
          rfl fun _ => hsheds, h.needed, .segment (h.atHand_of_closed ?_)⟩
        have hclosed := (hsheds []).1
        rw [List.append_nil, List.append_nil, h.delimiter_eq] at hclosed
        rw [hclosed]
        exact List.cons_ne_nil _ _

/-! ## Any number of calls -/

/-- A reader with nothing read. -/
theorem frugal_ofConfig (hfits : Fits c.framing.delimiter c.limit (octetsOf s.live)) :
    (ofConfig c s).Frugal c s 0 [] where
  sound := sound_ofConfig hfits
  delimiter_eq := rfl
  room_eq := rfl
  source_eq := rfl
  ended_iff := by simp [ofConfig, Source.replies]
  sheds := fun _ _ => ⟨rfl, rfl⟩
  needed := by simp

theorem Frugal.after (h : r.Frugal c s n segments) (k : Nat) :
    ∃ n', n ≤ n' ∧
      (r.after k).Frugal c s n' (segments ++ (r.answers k).filterMap segmentIn) := by
  induction k generalizing r n segments with
  | zero => exact ⟨n, Nat.le_refl n, by rwa [answers, List.filterMap_nil, List.append_nil]⟩
  | succ k ih =>
    obtain ⟨n', hle, hnext, -⟩ := h.next
    obtain ⟨n'', hle', hafter⟩ := ih hnext
    refine ⟨n'', by omega, ?_⟩
    have hsplit : (r.answers (k + 1)).filterMap segmentIn =
        (segmentIn r.next.1).toList ++ (r.next.2.answers k).filterMap segmentIn := by
      rw [answers, List.filterMap_cons]
      cases segmentIn r.next.1 <;> rfl
    rwa [hsplit, ← List.append_assoc]

/-- The segment of an answer is the one that is to be reported first. -/
theorem segmentsOf_head? (reports : List Report) :
    segmentsOf reports =
      (segmentIn (Report.answer reports.head?)).toList ++ segmentsOf reports.tail := by
  match reports with
  | [] => rfl
  | .ok segment :: rest => rfl
  | .error f :: rest => rfl

/-- Nothing is answered only where nothing is to be reported. -/
theorem eq_nil_of_answer {reports : List Report} (h : Report.answer reports.head? = .ok none) :
    reports = [] := by
  match reports with
  | [] => rfl
  | .ok segment :: rest => cases h
  | .error f :: rest => cases h

/-- What is handed out, and what is to be reported still. -/
theorem Sound.segments_after (h : r.Sound) (k : Nat) :
    (r.answers k).filterMap segmentIn ++ segmentsOf (r.after k).reports = segmentsOf r.reports := by
  induction k generalizing r with
  | zero => rfl
  | succ k ih =>
    obtain ⟨later, hnext, htail, hlater⟩ := h.next_eq
    rw [segmentsOf_head? r.reports, ← htail, ← ih hlater, answers, FrameReader.after, hnext,
      List.filterMap_cons, ← List.append_assoc]
    cases segmentIn (Report.answer r.reports.head?) <;> rfl

/-- **A reader never reads ahead of need.** However many calls have been made of a reader within its
limit, the next call goes on with the reads of the source from `n` to `n'`. Each of them is made
while the segment that is due is not at hand: the octets that all reads before it brought do not
close it, and none of them met the end of the stream. So no read is made while a segment is closed
in the buffer, and none behind the end. A segment that is handed out is the next of the runs of the
whole stream that are not blank, and the reads that have been made, interrupted ones and failed ones
included, are the least number that put it at hand. Where no segment is left, a read has met the end,
and where the call fails, the last read has failed. -/
theorem reads_least (c : FrameConfig) (s : Source)
    (hfits : Fits c.framing.delimiter c.limit (octetsOf s.live)) (k : Nat) :
    let d := c.framing.delimiter
    let r := (ofConfig c s).after k
    let handed := ((ofConfig c s).answers k).filterMap segmentIn
    let runs := solid ((octetsOf s.live).splitOn d)
    ∃ n n', n ≤ n' ∧
      r.source = s.advance c.room n ∧ r.source.reads = s.reads + n ∧
      r.next.2.source = s.advance c.room n' ∧ r.next.2.source.reads = s.reads + n' ∧
      (∀ m < n', ¬ AtHand d handed.length (s.replies c.room m)) ∧
      (solid (closedRuns d r.segmenter.buffer) ≠ [] → n' = n) ∧
      (∀ segment, r.next.1 = .ok (some segment) →
        runs[handed.length]? = some segment ∧
          IsLeast {m | AtHand d handed.length (s.replies c.room m)} n') ∧
      (r.next.1 = .ok none → handed = runs ∧ .ok [] ∈ s.replies c.room n') ∧
      (∀ e, r.next.1 = .error e →
        n < n' ∧ ∃ f, e = .transport f ∧ (s.replies c.room n').getLast? = some (.error f)) := by
  intro d r handed runs
  obtain ⟨n, -, hfrugal⟩ := (frugal_ofConfig hfits).after k
  obtain ⟨n', hle, hnext, hneeded, hdrawn⟩ := hfrugal.next
  obtain ⟨later, hanswer, htail, hlater⟩ := hfrugal.sound.next_eq
  have hruns : handed ++ segmentsOf r.reports = runs :=
    ((sound_ofConfig hfits).segments_after k).trans (segmentsOf_transcript d [] s.live)
  have hfirst : (segmentIn r.next.1).toList ++ segmentsOf r.reports.tail = segmentsOf r.reports := by
    rw [show r.next.1 = Report.answer r.reports.head? from congrArg Prod.fst hanswer]
    exact (segmentsOf_head? r.reports).symm
  rw [List.nil_append] at hfrugal hneeded hdrawn
  refine ⟨n, n', hle, hfrugal.source_eq, ?_, hnext.source_eq, ?_, hneeded, ?_, ?_, ?_, ?_⟩
  · rw [hfrugal.source_eq, Source.reads_advance]
  · rw [hnext.source_eq, Source.reads_advance]
  · intro hclosed
    have hhand := hfrugal.atHand_of_closed hclosed
    rcases Nat.eq_or_lt_of_le hle with heq | hlt
    · exact heq.symm
    · exact absurd hhand (hneeded n hlt)
  · intro segment hsegment
    rw [hsegment] at hdrawn hfirst
    cases hdrawn with
    | segment hhand =>
      refine ⟨?_, hhand, fun m hm => ?_⟩
      · rw [← hruns, ← hfirst, segmentIn]
        simp
      · by_contra hlt
        exact hneeded m (Nat.lt_of_not_le hlt) hm
  · intro hnone
    rw [hnone] at hdrawn
    cases hdrawn with
    | ended hend =>
      have hreports : r.reports = [] := by
        rw [hanswer] at hnone
        exact eq_nil_of_answer hnone
      rw [hreports] at hruns
      exact ⟨(List.append_nil handed).symm.trans hruns, hend⟩
  · intro e he
    rw [he] at hdrawn
    cases hdrawn with
    | failed hlt hlast => exact ⟨hlt, _, rfl, hlast⟩

/-- Two lines in one piece, an interruption, a blank line with the start of the last one, an end of
the stream, and octets behind it. -/
def lineSource : Source :=
  ⟨[.data [0x61, 0x0a, 0x62, 0x0a], .fault (.plain .interrupted), .data [0x20, 0x0a, 0x63], .data [],
    .data [0x0a]], 0⟩

/-- The first read puts two lines at hand, and the third line takes three more: one is interrupted,
one brings its start, and one meets the end. The octets behind the end are never read. -/
theorem reads_least_lineSource :
    Fits 0x0a 8 (octetsOf lineSource.live) ∧
      IsLeast {m | AtHand 0x0a 1 (lineSource.replies 4 m)} 1 ∧
      IsLeast {m | AtHand 0x0a 2 (lineSource.replies 4 m)} 4 ∧
      ((ofConfig ⟨.lineDelimited, 8, 4⟩ lineSource).after 4).source.reads = 4 := by
  have hfits : Fits 0x0a 8 (octetsOf lineSource.live) := by
    unfold Fits
    decide
  have hleast (k i count : Nat) (segment : Bytes)
      (hnext : ((ofConfig ⟨.lineDelimited, 8, 4⟩ lineSource).after k).next.1 = .ok (some segment))
      (hhanded :
        (((ofConfig ⟨.lineDelimited, 8, 4⟩ lineSource).answers k).filterMap segmentIn).length = i)
      (hcount : ((ofConfig ⟨.lineDelimited, 8, 4⟩ lineSource).after k).next.2.source.reads = count) :
      IsLeast {m | AtHand 0x0a i (lineSource.replies 4 m)} count := by
    obtain ⟨n, n', -, -, -, -, hreads, -, -, hsegment, -⟩ :=
      reads_least ⟨.lineDelimited, 8, 4⟩ lineSource hfits k
    have hn' : n' = count := by
      rw [← hcount, hreads]
      exact (Nat.zero_add n').symm
    have hall := (hsegment segment hnext).2
    rw [hhanded, hn'] at hall
    exact hall
  refine ⟨hfits, hleast 1 1 1 [0x62] ?_ ?_ ?_, hleast 2 2 4 [0x63] ?_ ?_ ?_, ?_⟩ <;>
    decide +kernel

end FrameReader

end WarcStream
