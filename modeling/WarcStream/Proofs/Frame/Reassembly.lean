import WarcStream.Proofs.Frame.Reading
/-!
# Reassembly

What a frame reader hands out depends on the runs of its stream and on where
the source fails, and on nothing else. `transcript` says it in terms of the
source alone: the runs of all the octets, and before each fault those that the
octets so far have closed. `Sound` is the invariant of a reader within its
limit, `next_eq` is one call, and `answers_eq` all calls. The main statement is
`answers_eq_runs`.
-/

namespace WarcStream

open Transport Bytes

/-- What a reader is to report: a segment, or a fault of the source. -/
abbrev Report := Except Fault Bytes

/-- The answer that a report comes as; no report is the end of the stream. -/
def Report.answer : Option Report → Except FrameError (Option Bytes)
  | none => .ok none
  | some (.ok segment) => .ok (some segment)
  | some (.error f) => .error (.transport f)

/-- The segments among reports. -/
def segmentsOf (reports : List Report) : List Bytes := reports.filterMap fun
  | .ok segment => some segment
  | .error _ => none

/-- The faults among reports. -/
def faultsOf (reports : List Report) : List Fault := reports.filterMap fun
  | .ok _ => none
  | .error f => some f

/-- Segments as reports. -/
def reportsOf (runs : List Bytes) : List Report := (solid runs).map .ok

/-- What is to be reported of octets that were read and deliveries to come. -/
def transcript (d : UInt8) (buffer : Bytes) : List Delivery → List Report
  | [] => reportsOf (buffer.splitOn d)
  | .data octets :: rest => transcript d (buffer ++ octets) rest
  | .fault f :: rest =>
    if f.isInterruption then transcript d buffer rest
    else reportsOf (closedRuns d buffer) ++ .error f :: transcript d (openRun d buffer) rest

section Transcript

variable {d : UInt8} {buffer run after : Bytes} {script : List Delivery}

theorem reportsOf_append (xs ys : List Bytes) :
    reportsOf (xs ++ ys) = reportsOf xs ++ reportsOf ys := by
  rw [reportsOf, solid_append, List.map_append]
  rfl

/-- The runs that are closed are reported first. -/
theorem transcript_eq (d : UInt8) (buffer : Bytes) (script : List Delivery) :
    transcript d buffer script =
      reportsOf (closedRuns d buffer) ++ transcript d (openRun d buffer) script := by
  have hopen : d ∉ openRun d buffer := notMem_openRun d buffer
  induction script generalizing buffer with
  | nil =>
    rw [transcript, transcript, splitOn_eq, reportsOf_append, splitOn_eq d (openRun d buffer),
      closedRuns_of_notMem hopen, openRun_of_notMem hopen, List.nil_append]
  | cons delivery rest ih =>
    match delivery with
    | .data octets =>
      rw [transcript, transcript, ih _ (notMem_openRun d _), closedRuns_append, reportsOf_append,
        openRun_append, List.append_assoc, ← ih _ (notMem_openRun d _)]
    | .fault f =>
      rw [transcript, transcript]
      by_cases hint : f.isInterruption = true
      · rw [if_pos hint, if_pos hint]
        exact ih buffer hopen
      · rw [if_neg hint, if_neg hint, closedRuns_of_notMem hopen, openRun_of_notMem hopen]
        rfl

/-- A run that a delimiter closes is reported before all else. -/
theorem transcript_append_cons (h : d ∉ run) :
    transcript d (run ++ d :: after) script = reportsOf [run] ++ transcript d after script := by
  rw [transcript_eq, closedRuns_append_cons h, openRun_append_cons h, ← List.singleton_append,
    reportsOf_append, List.append_assoc, ← transcript_eq]

/-- Blank runs that are closed leave no trace. -/
theorem transcript_closing {runs : List Bytes} (h : ∀ run ∈ runs, allBlank run = true ∧ d ∉ run) :
    transcript d (closing d runs ++ after) script = transcript d after script := by
  induction runs with
  | nil => rfl
  | cons run rest ih =>
    obtain ⟨hblank, hrun⟩ := h run List.mem_cons_self
    rw [closing_cons, transcript_append_cons hrun, ih fun r hr => h r (List.mem_cons_of_mem run hr)]
    simp [reportsOf, solid, hblank]

/-- Nothing but the octets of quiet deliveries is to be reported. -/
theorem transcript_of_quiet (h : ∀ d ∈ script, d.IsQuiet) (d : UInt8) (buffer : Bytes) :
    transcript d buffer script = reportsOf ((buffer ++ octetsOf script).splitOn d) := by
  induction script generalizing buffer with
  | nil => rw [transcript, octetsOf_nil, List.append_nil]
  | cons delivery rest ih =>
    have hrest (buffer : Bytes) := ih (fun d hd => h d (List.mem_cons_of_mem _ hd)) buffer
    match delivery, h delivery List.mem_cons_self with
    | .data octets, _ => rw [transcript, hrest, octetsOf_data, List.append_assoc]
    | .fault f, hint =>
      have hf : f.isInterruption = true := hint
      rw [transcript, if_pos hf, hrest, octetsOf_fault]

theorem segmentsOf_append (xs ys : List Report) :
    segmentsOf (xs ++ ys) = segmentsOf xs ++ segmentsOf ys :=
  List.filterMap_append

theorem faultsOf_append (xs ys : List Report) : faultsOf (xs ++ ys) = faultsOf xs ++ faultsOf ys :=
  List.filterMap_append

@[simp] theorem segmentsOf_reportsOf (runs : List Bytes) :
    segmentsOf (reportsOf runs) = solid runs := by
  rw [segmentsOf, reportsOf, List.filterMap_map]
  exact List.filterMap_some

@[simp] theorem faultsOf_reportsOf (runs : List Bytes) : faultsOf (reportsOf runs) = [] := by
  rw [faultsOf, reportsOf, List.filterMap_map, List.filterMap_eq_nil_iff]
  exact fun _ _ => rfl

/-- **The segments of a transcript** are the runs of all the octets: no fault costs one. -/
theorem segmentsOf_transcript (d : UInt8) (buffer : Bytes) (script : List Delivery) :
    segmentsOf (transcript d buffer script) = solid ((buffer ++ octetsOf script).splitOn d) := by
  induction script generalizing buffer with
  | nil => rw [transcript, segmentsOf_reportsOf, octetsOf_nil, List.append_nil]
  | cons delivery rest ih =>
    match delivery with
    | .data octets => rw [transcript, ih, octetsOf_data, List.append_assoc]
    | .fault f =>
      rw [transcript, octetsOf_fault]
      by_cases hint : f.isInterruption = true
      · rw [if_pos hint, ih]
      · rw [if_neg hint, segmentsOf_append, segmentsOf_reportsOf, solid_splitOn_append, ← ih]
        rfl

/-- The faults of a transcript are those of the script that are no interruptions. -/
theorem faultsOf_transcript (d : UInt8) (buffer : Bytes) (script : List Delivery) :
    faultsOf (transcript d buffer script) = failuresOf script := by
  induction script generalizing buffer with
  | nil => rw [transcript, faultsOf_reportsOf, failuresOf_nil]
  | cons delivery rest ih =>
    match delivery with
    | .data octets => rw [transcript, ih, failuresOf_data]
    | .fault f =>
      rw [transcript]
      by_cases hint : f.isInterruption = true
      · rw [if_pos hint, failuresOf_of_interruption hint, ih]
      · rw [if_neg hint, failuresOf_of_failure hint, faultsOf_append, faultsOf_reportsOf,
          List.nil_append, ← ih (openRun d buffer)]
        rfl

/-- **Where a fault is reported**: behind the runs that the octets before it close, and behind the
faults before it. -/
theorem transcript_fault (d : UInt8) (buffer : Bytes) (before after : List Delivery) {f : Fault}
    (hint : ¬ f.isInterruption = true) :
    ∃ early late, transcript d buffer (before ++ .fault f :: after) = early ++ .error f :: late ∧
      segmentsOf early = solid (closedRuns d (buffer ++ octetsOf before)) ∧
      faultsOf early = failuresOf before := by
  induction before generalizing buffer with
  | nil =>
    refine ⟨reportsOf (closedRuns d buffer), transcript d (openRun d buffer) after, ?_, ?_, ?_⟩
    · rw [List.nil_append, transcript, if_neg hint]
    · rw [segmentsOf_reportsOf, octetsOf_nil, List.append_nil]
    · rw [faultsOf_reportsOf, failuresOf_nil]
  | cons delivery rest ih =>
    match delivery with
    | .data octets =>
      obtain ⟨early, late, heq, hseg, hfault⟩ := ih (buffer ++ octets)
      refine ⟨early, late, ?_, ?_, ?_⟩
      · rw [List.cons_append, transcript, heq]
      · rw [hseg, octetsOf_data, List.append_assoc]
      · rw [hfault, failuresOf_data]
    | .fault g =>
      by_cases hg : g.isInterruption = true
      · obtain ⟨early, late, heq, hseg, hfault⟩ := ih buffer
        refine ⟨early, late, ?_, ?_, ?_⟩
        · rw [List.cons_append, transcript, if_pos hg, heq]
        · rw [hseg, octetsOf_fault]
        · rw [hfault, failuresOf_of_interruption hg]
      · obtain ⟨early, late, heq, hseg, hfault⟩ := ih (openRun d buffer)
        refine ⟨reportsOf (closedRuns d buffer) ++ .error g :: early, late, ?_, ?_, ?_⟩
        · rw [List.cons_append, transcript, if_neg hg, heq, List.append_assoc, List.cons_append]
        · rw [octetsOf_fault, closedRuns_append, solid_append, ← hseg, segmentsOf_append,
            segmentsOf_reportsOf]
          rfl
        · rw [failuresOf_of_failure hg, ← hfault, faultsOf_append, faultsOf_reportsOf,
            List.nil_append]
          rfl

end Transcript

namespace FrameReader

variable {r : FrameReader}

/-- The octet that the stream is cut at. -/
abbrev delimiter (r : FrameReader) : UInt8 := r.segmenter.framing.delimiter

/-- The deliveries that a reader is still to see. -/
def pending (r : FrameReader) : List Delivery := if r.ended then [] else r.source.live

/-- What a reader is still to report. -/
def reports (r : FrameReader) : List Report :=
  transcript r.delimiter r.segmenter.buffer r.pending

/-- **The invariant of a reader within its limit**: what it has searched it has searched rightly,
and no run of what it holds and is still to see is over the limit. -/
structure Sound (r : FrameReader) : Prop where
  searched : r.segmenter.Searched
  room_pos : 0 < r.room
  fits : Fits r.delimiter r.segmenter.limit (r.segmenter.buffer ++ octetsOf r.pending)

/-- The segmenter waits with `rest`, which no delimiter closes yet, and nothing is to be reported
before the next read. -/
structure Waits (r : FrameReader) (rest : Bytes) : Prop where
  room_pos : 0 < r.room
  next_eq : r.segmenter.next = (.ok none, (r.segmenter.behind rest).waiting)
  notMem : r.delimiter ∉ rest
  reports_eq : r.reports = transcript r.delimiter rest r.pending
  fits : Fits r.delimiter r.segmenter.limit (rest ++ octetsOf r.pending)

/-- What the segmenter of a reader within its limit does: it waits, or it hands out what is to be
reported first. -/
theorem Sound.segmenter_cases (h : r.Sound) :
    (∃ rest, r.Waits rest) ∨
      ∃ segment after, r.segmenter.next = (.ok (some segment), r.segmenter.behind after) ∧
        r.reports = .ok segment :: transcript r.delimiter after r.pending ∧
        Fits r.delimiter r.segmenter.limit (after ++ octetsOf r.pending) := by
  obtain ⟨blanks, rest, hb, hblanks, hcases⟩ := Segmenter.next_cases h.searched
  have hfits : Fits r.delimiter r.segmenter.limit (rest ++ octetsOf r.pending) := by
    have hall := h.fits
    rw [hb, List.append_assoc] at hall
    exact hall.of_closing fun run hrun => (hblanks run hrun).2
  have hreports : r.reports = transcript r.delimiter rest r.pending := by
    rw [reports, hb]
    exact transcript_closing hblanks
  rcases hcases with ⟨hrest, hnext⟩ | ⟨run, after, rfl, hrun, hblank, hnext⟩
  · refine .inl ⟨rest, h.room_pos, ?_, hrest, hreports, hfits⟩
    rw [hnext, if_neg (Nat.not_lt.2 (hfits.length_le hrest))]
  · rw [List.append_assoc, List.cons_append] at hfits
    obtain ⟨hlen, hafter⟩ := hfits.of_append_cons hrun
    refine .inr ⟨run, after, ?_, ?_, hafter⟩
    · rw [hnext, if_neg (Nat.not_lt.2 hlen)]
    · rw [hreports]
      refine (transcript_append_cons hrun).trans ?_
      simp [reportsOf, solid, hblank]

/-- The reader behind a segment that was handed out. -/
theorem Sound.behind {after : Bytes} (h : r.Sound)
    (hfits : Fits r.delimiter r.segmenter.limit (after ++ octetsOf r.pending)) :
    Sound { r with segmenter := r.segmenter.behind after } :=
  ⟨Segmenter.searched_behind _ after, h.room_pos, hfits⟩

/-- One call after the end of the source. -/
theorem Sound.last_eq (h : r.Sound) (hended : r.ended = true) :
    ∃ later, r.last = (Report.answer r.reports.head?, later) ∧ later.reports = r.reports.tail ∧
      later.Sound := by
  have hpending : r.pending = [] := by rw [pending, hended, if_pos rfl]
  rcases h.segmenter_cases with ⟨rest, hwaits⟩ | ⟨segment, after, hnext, hreports, hfits⟩
  · let later : FrameReader := { r with segmenter := (r.segmenter.behind rest).waiting.behind [] }
    have hlater : later.pending = [] := by rw [pending, hended, if_pos rfl]
    have htail : later.reports = [] := by rw [reports, hlater]; rfl
    have hall : r.reports = reportsOf [rest] := by
      rw [hwaits.reports_eq, hpending, transcript, List.splitOn_eq_singleton hwaits.notMem]
    refine ⟨later, ?_, ?_, Segmenter.searched_behind _ [], h.room_pos, ?_⟩
    · rw [FrameReader.last, Segmenter.last_of_waiting hwaits.next_eq, hall]
      refine Prod.ext ?_ rfl
      show (if allBlank rest then Except.ok none else Except.ok (some rest)) = Report.answer _
      cases hblank : allBlank rest <;> simp [reportsOf, solid, hblank, Report.answer]
    · rw [htail, hall]
      cases hblank : allBlank rest <;> simp [reportsOf, solid, hblank]
    · rw [hlater]
      simp [Fits, later, Segmenter.behind]
  · refine ⟨_, ?_, ?_, h.behind hfits⟩
    · rw [FrameReader.last, Segmenter.last_of_answer hnext (by simp), hreports]
      rfl
    · rw [hreports]
      rfl

section OneRead

variable {rest piece : Bytes} {next : Source} {f : Fault}

/-- The reader behind a read while its segmenter waits with `rest`. -/
def again (r : FrameReader) (rest : Bytes) (next : Source) : FrameReader :=
  { r with segmenter := (r.segmenter.behind rest).waiting, source := next }

theorem pending_of_not_ended (hended : r.ended = false) : r.pending = r.source.live := by
  rw [pending, hended, if_neg Bool.false_ne_true]

/-- The end of the stream changes nothing that is to be reported. -/
theorem Waits.close (h : r.Waits rest) (hended : r.ended = false) (hlive : r.source.live = [])
    (next : Source) :
    (r.close (r.segmenter.behind rest).waiting next).Sound ∧
      (r.close (r.segmenter.behind rest).waiting next).reports = r.reports := by
  have hpending : r.pending = [] := (pending_of_not_ended hended).trans hlive
  refine ⟨⟨Segmenter.searched_waiting h.notMem, h.room_pos, ?_⟩, ?_⟩
  · have hfits := h.fits
    rw [hpending] at hfits
    exact hfits
  · rw [h.reports_eq, hpending]
    rfl

/-- A read that fails loses nothing. -/
theorem Waits.sound_again (h : r.Waits rest) (hended : r.ended = false)
    (hlive : r.source.live = .fault f :: next.live) : (r.again rest next).Sound := by
  have hfits := h.fits
  rw [pending_of_not_ended hended, hlive] at hfits
  refine ⟨Segmenter.searched_waiting h.notMem, h.room_pos, ?_⟩
  rw [show (r.again rest next).pending = next.live from pending_of_not_ended hended]
  exact hfits

/-- An interruption is not reported, -/
theorem Waits.reports_of_interruption (h : r.Waits rest) (hended : r.ended = false)
    (hlive : r.source.live = .fault f :: next.live) (hint : f.isInterruption = true) :
    (r.again rest next).reports = r.reports := by
  rw [h.reports_eq, pending_of_not_ended hended, hlive, transcript, if_pos hint, reports,
    show (r.again rest next).pending = next.live from pending_of_not_ended hended]
  rfl

/-- and any other fault is what is to be reported first. -/
theorem Waits.reports_of_failure (h : r.Waits rest) (hended : r.ended = false)
    (hlive : r.source.live = .fault f :: next.live) (hint : ¬ f.isInterruption = true) :
    r.reports = .error f :: (r.again rest next).reports := by
  rw [h.reports_eq, pending_of_not_ended hended, hlive, transcript, if_neg hint,
    closedRuns_of_notMem h.notMem, openRun_of_notMem h.notMem, reports,
    show (r.again rest next).pending = next.live from pending_of_not_ended hended]
  rfl

/-- Octets that move from the source to the buffer change nothing that is to be reported. -/
theorem Waits.feed (h : r.Waits rest) (hended : r.ended = false)
    (hlive : r.source.live = .data piece :: next.live ∨
      ∃ more behind, r.source.live = .data (piece ++ more) :: behind ∧
        next.live = .data more :: behind) :
    Sound { r with segmenter := (r.segmenter.behind rest).waiting.feed piece, source := next } ∧
      FrameReader.reports
        { r with segmenter := (r.segmenter.behind rest).waiting.feed piece, source := next } =
        r.reports := by
  have hpending := pending_of_not_ended hended
  have hoctets : piece ++ octetsOf next.live = octetsOf r.source.live := by
    rcases hlive with hlive | ⟨more, behind, hlive, hnext⟩
    · rw [hlive, octetsOf_data]
    · rw [hlive, hnext, octetsOf_data, octetsOf_data, List.append_assoc]
  have hreports : transcript r.delimiter (rest ++ piece) next.live =
      transcript r.delimiter rest r.source.live := by
    rcases hlive with hlive | ⟨more, behind, hlive, hnext⟩
    · rw [hlive, transcript]
    · rw [hlive, hnext, transcript, transcript, List.append_assoc]
  let later : FrameReader :=
    { r with segmenter := (r.segmenter.behind rest).waiting.feed piece, source := next }
  have hlater : later.pending = next.live := pending_of_not_ended hended
  have hbuffer : later.segmenter.buffer = rest ++ piece := rfl
  refine ⟨⟨(Segmenter.searched_waiting h.notMem).feed piece, h.room_pos, ?_⟩, ?_⟩
  · show Fits r.delimiter r.segmenter.limit (later.segmenter.buffer ++ octetsOf later.pending)
    rw [hlater, hbuffer, List.append_assoc, hoctets, ← hpending]
    exact h.fits
  · show transcript r.delimiter later.segmenter.buffer later.pending = r.reports
    rw [hlater, hbuffer, hreports, h.reports_eq, hpending]

/-- **All that one read can do** while the segmenter waits: it meets the end of the stream, it fails
and is reported, or it leaves all that is to be reported to the next read. -/
theorem Waits.read_cases (h : r.Waits rest) (hended : r.ended = false) :
    (∃ later : FrameReader, r.next = later.last ∧ later.ended = true ∧
      later.reports = r.reports ∧ later.Sound) ∨
    (∃ f later, r.next = (.error (.transport f), later) ∧ r.reports = .error f :: later.reports ∧
      later.Sound) ∨
    ∃ later : FrameReader, r.next = later.next ∧ later.source.weight < r.source.weight ∧
      later.reports = r.reports ∧ later.Sound := by
  rcases r.source.read_cases h.room_pos with
    ⟨hlive, next, hread⟩ | ⟨f, next, hread, hlive⟩ | ⟨piece, next, hread, hpiece, hlive⟩
  · obtain ⟨hsound, hreports⟩ := h.close hended hlive next
    exact .inl ⟨_, next_of_end hended h.next_eq hread, rfl, hreports, hsound⟩
  · have hsound := h.sound_again hended hlive
    by_cases hint : f.isInterruption = true
    · exact .inr (.inr ⟨_, next_of_interruption hended h.next_eq hread hint,
        Source.read_weight_lt_of_error hread, h.reports_of_interruption hended hlive hint, hsound⟩)
    · exact .inr (.inl ⟨f, _, next_of_failure hended h.next_eq hread hint,
        h.reports_of_failure hended hlive hint, hsound⟩)
  · obtain ⟨hsound, hreports⟩ := h.feed hended hlive
    exact .inr (.inr ⟨_, next_of_octets hended h.next_eq hread hpiece,
      Source.read_weight_lt_of_ok hread hpiece, hreports, hsound⟩)

end OneRead

/-- **One call** of a reader within its limit gives the first of what is to be reported and leaves
the rest. -/
theorem Sound.next_eq (h : r.Sound) :
    ∃ later, r.next = (Report.answer r.reports.head?, later) ∧ later.reports = r.reports.tail ∧
      later.Sound := by
  -- along the reads, each of which lowers the weight of the source
  induction hn : r.source.weight using Nat.strongRecOn generalizing r with
  | _ n ih =>
    rcases h.segmenter_cases with ⟨rest, hwaits⟩ | ⟨segment, after, hnext, hreports, hfits⟩
    · cases hended : r.ended with
      | true =>
        rw [next_of_ended hended]
        exact h.last_eq hended
      | false =>
        rcases hwaits.read_cases hended with
          ⟨later, hnext, hlater, hreports, hsound⟩ | ⟨f, later, hnext, hreports, hsound⟩ |
            ⟨later, hnext, hless, hreports, hsound⟩
        · rw [hnext, ← hreports]
          exact hsound.last_eq hlater
        · rw [hnext, hreports]
          exact ⟨later, rfl, rfl, hsound⟩
        · rw [hnext, ← hreports]
          exact ih later.source.weight (hn ▸ hless) hsound rfl
    · rw [next_of_answer hnext (by simp), hreports]
      exact ⟨_, rfl, rfl, h.behind hfits⟩

/-- **Any number of calls**: everything that is to be reported, and then the end. -/
theorem Sound.answers_eq (h : r.Sound) (k : Nat) :
    r.answers (r.reports.length + k) =
      r.reports.map (fun report => Report.answer (some report)) ++ List.replicate k (.ok none) := by
  induction hreports : r.reports generalizing r with
  | nil =>
    induction k generalizing r with
    | zero => rfl
    | succ k ih =>
      obtain ⟨later, hnext, htail, hlater⟩ := h.next_eq
      rw [hreports] at hnext htail
      have hrest := ih hlater htail
      rw [List.length_nil, Nat.zero_add] at hrest ⊢
      rw [answers, hnext, hrest]
      rfl
  | cons report reports ih =>
    obtain ⟨later, hnext, htail, hlater⟩ := h.next_eq
    rw [hreports] at hnext htail
    rw [List.length_cons, Nat.add_right_comm, answers, hnext, ih hlater htail]
    rfl

/-- A reader with nothing read is within its limit where no run of its source is over it. -/
theorem sound_ofConfig {c : FrameConfig} {s : Source}
    (h : Fits c.framing.delimiter c.limit (octetsOf s.live)) : (ofConfig c s).Sound :=
  ⟨Segmenter.searched_of_zero rfl, Nat.le_max_right c.chunk 1, h⟩

/-- **Reassembly.** Where no run of the stream is over the limit, a reader hands out the runs that
are not blank, the one behind the last delimiter included, and reports each fault of the source
once, behind the runs that were closed before it; then it is at the end for good. Neither the cuts
nor the interruptions nor the faults change a segment. -/
theorem answers_eq_runs (c : FrameConfig) (s : Source)
    (hfits : Fits c.framing.delimiter c.limit (octetsOf s.live)) :
    ∃ reports : List Report,
      (∀ k, (ofConfig c s).answers (reports.length + k) =
        reports.map (fun report => Report.answer (some report)) ++
          List.replicate k (.ok none)) ∧
      segmentsOf reports = solid ((octetsOf s.live).splitOn c.framing.delimiter) ∧
      faultsOf reports = failuresOf s.live ∧
      ∀ before f after, s.live = before ++ .fault f :: after → ¬ f.isInterruption = true →
        ∃ early late, reports = early ++ .error f :: late ∧
          segmentsOf early = solid (closedRuns c.framing.delimiter (octetsOf before)) ∧
          faultsOf early = failuresOf before := by
  have hsound := sound_ofConfig hfits
  refine ⟨transcript c.framing.delimiter [] s.live, hsound.answers_eq,
    segmentsOf_transcript _ _ _, faultsOf_transcript _ _ _, ?_⟩
  intro before f after hlive hint
  rw [hlive]
  exact transcript_fault _ _ before after hint

/-- A source of lines that is cut inside them, interrupted and once out of time. -/
def faultySource : Source :=
  ⟨[.data [0x61], .fault (.plain .interrupted), .data [0x0a, 0x20, 0x0a, 0x62],
    .fault (.plain .timedOut), .data [0x63], .data [], .data [0x64]], 0⟩

theorem answers_eq_runs_faultySource :
    Fits 0x0a 2 (octetsOf faultySource.live) ∧
      ∃ reports : List Report,
        (ofConfig ⟨.lineDelimited, 2, 2⟩ faultySource).answers (reports.length + 1) =
          reports.map (fun report => Report.answer (some report)) ++ [.ok none] ∧
        segmentsOf reports = [[0x61], [0x62, 0x63]] ∧
        faultsOf reports = [.plain .timedOut] := by
  have hfits : Fits 0x0a 2 (octetsOf faultySource.live) := by
    unfold Fits
    decide
  refine ⟨hfits, ?_⟩
  obtain ⟨reports, hanswers, hsegments, hfaults, -⟩ :=
    answers_eq_runs ⟨.lineDelimited, 2, 2⟩ faultySource hfits
  refine ⟨reports, hanswers 1, ?_, ?_⟩
  · rw [hsegments]
    decide
  · rw [hfaults]
    decide

end FrameReader

end WarcStream
