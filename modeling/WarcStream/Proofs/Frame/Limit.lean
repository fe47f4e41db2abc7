import WarcStream.Proofs.Frame.Reading
/-!
# The limit and the cuts of a stream

A run over the limit is refused, but a blank run is dropped whatever its size
once its delimiter has arrived: so a blank run over the limit is dropped by a
reader that gets it in one piece and refused by one that sees it grow.
`verdictOf` is what a reader makes of runs that all come in one piece,
`Possible` is all that any reader can make of them, and `isSettled` holds of
runs that leave no choice. The main statement is `verdict_eq_iff_settled`: two
readers agree on a stream, however it is cut, exactly when its runs are
settled.
-/

namespace WarcStream

open Transport Bytes

/-- More octets belong to one segment than the limit allows. -/
def FrameError.isTooLarge : FrameError → Bool
  | .tooLarge _ _ => true
  | _ => false

/-- The segments of a stream up to the first error, and whether the limit was that error. -/
abbrev Verdict := List Bytes × Bool

/-- A segment in front of a verdict. -/
def Verdict.cons (segment : Bytes) (v : Verdict) : Verdict := (segment :: v.1, v.2)

/-! ## Verdicts on runs -/

/-- What a reader makes of runs of which it gets each in one piece. -/
def verdictOf (limit : Nat) : List Bytes → Verdict
  | [] => ([], false)
  | [rest] => if limit < rest.length then ([], true) else (solid [rest], false)
  | run :: next :: more =>
    if allBlank run then verdictOf limit (next :: more)
    else if limit < run.length then ([], true)
    else (verdictOf limit (next :: more)).cons run

/-- What a reader can make of runs of which it may see each grow. -/
inductive Possible (limit : Nat) : List Bytes → Verdict → Prop
  /-- The run behind the last delimiter leaves no choice. -/
  | last {rest : Bytes} : Possible limit [rest] (verdictOf limit [rest])
  /-- A blank run is dropped, -/
  | dropped {run : Bytes} {runs : List Bytes} {v : Verdict} :
      runs ≠ [] → allBlank run = true → Possible limit runs v → Possible limit (run :: runs) v
  /-- and any run over the limit may be refused, a blank one as well. -/
  | refused {run : Bytes} {runs : List Bytes} :
      runs ≠ [] → limit < run.length → Possible limit (run :: runs) ([], true)
  | handed {run : Bytes} {runs : List Bytes} {v : Verdict} :
      runs ≠ [] → allBlank run = false → run.length ≤ limit → Possible limit runs v →
      Possible limit (run :: runs) (v.cons run)

/-- The runs are refused before a segment is handed out, whatever is dropped. -/
def isRefused (limit : Nat) : List Bytes → Bool
  | [] => false
  | [rest] => limit < rest.length
  | run :: next :: more =>
    if allBlank run then isRefused limit (next :: more) else limit < run.length

/-- **The runs leave no choice.** The first one over the limit, if there is one, is not a blank run
that a delimiter closes, or all that is behind it is refused as well. -/
def isSettled (limit : Nat) : List Bytes → Bool
  | [] => true
  | [_] => true
  | run :: next :: more =>
    if limit < run.length then !allBlank run || isRefused limit (next :: more)
    else isSettled limit (next :: more)

section Runs

variable {limit : Nat} {run rest : Bytes} {runs : List Bytes} {v : Verdict}

theorem verdictOf_of_blank (hruns : runs ≠ []) (h : allBlank run = true) :
    verdictOf limit (run :: runs) = verdictOf limit runs := by
  obtain ⟨next, more, rfl⟩ := List.exists_cons_of_ne_nil hruns
  rw [verdictOf, if_pos h]

theorem verdictOf_of_large (hruns : runs ≠ []) (h : allBlank run = false)
    (hlen : limit < run.length) : verdictOf limit (run :: runs) = ([], true) := by
  obtain ⟨next, more, rfl⟩ := List.exists_cons_of_ne_nil hruns
  rw [verdictOf, if_neg (by simp [h]), if_pos hlen]

theorem verdictOf_of_segment (hruns : runs ≠ []) (h : allBlank run = false)
    (hlen : run.length ≤ limit) :
    verdictOf limit (run :: runs) = (verdictOf limit runs).cons run := by
  obtain ⟨next, more, rfl⟩ := List.exists_cons_of_ne_nil hruns
  rw [verdictOf, if_neg (by simp [h]), if_neg (Nat.not_lt.2 hlen)]

/-- Blank runs in front are dropped. -/
theorem verdictOf_append {blanks : List Bytes} (hruns : runs ≠ [])
    (h : ∀ run ∈ blanks, allBlank run = true) :
    verdictOf limit (blanks ++ runs) = verdictOf limit runs := by
  induction blanks with
  | nil => rfl
  | cons run more ih =>
    rw [List.cons_append, verdictOf_of_blank (by simp [hruns]) (h run List.mem_cons_self)]
    exact ih fun r hr => h r (List.mem_cons_of_mem run hr)

theorem Possible.append {blanks : List Bytes} (hruns : runs ≠ [])
    (h : ∀ run ∈ blanks, allBlank run = true)
    (hv : Possible limit runs v) : Possible limit (blanks ++ runs) v := by
  induction blanks with
  | nil => exact hv
  | cons run more ih =>
    exact .dropped (by simp [hruns]) (h run List.mem_cons_self)
      (ih fun r hr => h r (List.mem_cons_of_mem run hr))

/-- The verdict of a reader that gets each run in one piece is possible. -/
theorem possible_verdictOf (limit : Nat) (hruns : runs ≠ []) :
    Possible limit runs (verdictOf limit runs) := by
  induction runs with
  | nil => exact absurd rfl hruns
  | cons run more ih =>
    by_cases hmore : more = []
    · rw [hmore]
      exact .last
    cases hblank : allBlank run with
    | true =>
      rw [verdictOf_of_blank hmore hblank]
      exact .dropped hmore hblank (ih hmore)
    | false =>
      by_cases hlen : limit < run.length
      · rw [verdictOf_of_large hmore hblank hlen]
        exact .refused hmore hlen
      · rw [verdictOf_of_segment hmore hblank (Nat.not_lt.1 hlen)]
        exact .handed hmore hblank (Nat.not_lt.1 hlen) (ih hmore)

/-- A run that is over the limit before its end has arrived may be refused. -/
theorem possible_of_start {d : UInt8} {start more : Bytes} (hstart : d ∉ start)
    (hlen : limit < start.length) : Possible limit ((start ++ more).splitOn d) ([], true) := by
  by_cases hmem : d ∈ more
  · obtain ⟨run, after, rfl, hrun⟩ := List.eq_append_cons_of_mem hmem
    have hboth : d ∉ start ++ run := by
      rw [List.mem_append]
      exact not_or.2 ⟨hstart, hrun⟩
    rw [← List.append_assoc, splitOn_append_cons hboth]
    refine .refused (List.splitOn_ne_nil d after) ?_
    rw [List.length_append]
    omega
  · have hboth : d ∉ start ++ more := by
      rw [List.mem_append]
      exact not_or.2 ⟨hstart, hmem⟩
    have hlast : verdictOf limit [start ++ more] = ([], true) := by
      rw [verdictOf, if_pos (by rw [List.length_append]; omega)]
    rw [List.splitOn_eq_singleton hboth, ← hlast]
    exact .last

/-- Runs are refused exactly when readers that get them in one piece refuse them at once. -/
theorem isRefused_iff (limit : Nat) (runs : List Bytes) :
    isRefused limit runs = true ↔ verdictOf limit runs = ([], true) := by
  induction runs using isRefused.induct with
  | case1 => simp [isRefused, verdictOf]
  | case2 rest =>
    rw [isRefused, verdictOf, decide_eq_true_iff]
    split <;> simp_all
  | case3 run next more hblank ih =>
    rw [isRefused, if_pos hblank, verdictOf_of_blank (by simp) hblank, ih]
  | case4 run next more hblank =>
    rw [isRefused, if_neg hblank, decide_eq_true_iff]
    rw [Bool.not_eq_true] at hblank
    by_cases hlen : limit < run.length
    · rw [verdictOf_of_large (by simp) hblank hlen]
      exact iff_of_true hlen rfl
    · rw [verdictOf_of_segment (by simp) hblank (Nat.not_lt.1 hlen)]
      exact iff_of_false hlen (by simp [Verdict.cons])

/-- Runs that are refused leave one verdict. -/
theorem Possible.of_isRefused (hv : Possible limit runs v) (h : isRefused limit runs = true) :
    v = ([], true) := by
  induction hv with
  | last => exact (isRefused_iff limit _).1 h
  | dropped hruns hblank _ ih =>
    refine ih ?_
    rwa [isRefused_iff, verdictOf_of_blank hruns hblank, ← isRefused_iff] at h
  | refused => rfl
  | handed hruns hblank hlen _ _ =>
    rw [isRefused_iff, verdictOf_of_segment hruns hblank hlen] at h
    simp [Verdict.cons] at h

/-- **Settled runs leave one verdict.** -/
theorem Possible.of_isSettled (hv : Possible limit runs v) (h : isSettled limit runs = true) :
    v = verdictOf limit runs := by
  induction hv with
  | last => rfl
  | @dropped run runs v hruns hblank hv ih =>
    obtain ⟨next, more, rfl⟩ := List.exists_cons_of_ne_nil hruns
    rw [verdictOf_of_blank hruns hblank]
    rw [isSettled] at h
    by_cases hlen : limit < run.length
    · rw [if_pos hlen, hblank, Bool.not_true, Bool.false_or] at h
      rw [hv.of_isRefused h, (isRefused_iff limit _).1 h]
    · rw [if_neg hlen] at h
      exact ih h
  | @refused run runs hruns hlen =>
    obtain ⟨next, more, rfl⟩ := List.exists_cons_of_ne_nil hruns
    rw [isSettled, if_pos hlen] at h
    cases hblank : allBlank run with
    | true =>
      rw [hblank, Bool.not_true, Bool.false_or, isRefused_iff] at h
      rw [verdictOf_of_blank hruns hblank, h]
    | false => rw [verdictOf_of_large hruns hblank hlen]
  | @handed run runs v hruns hblank hlen hv ih =>
    obtain ⟨next, more, rfl⟩ := List.exists_cons_of_ne_nil hruns
    rw [isSettled, if_neg (Nat.not_lt.2 hlen)] at h
    rw [verdictOf_of_segment hruns hblank hlen, ih h]

/-- Runs are settled where the verdict stays the same if the stream stops in the first run over the
limit, with no delimiter behind it. -/
theorem isSettled_of_forall_split
    (h : ∀ before run after, runs = before ++ run :: after → limit < run.length →
      verdictOf limit runs = verdictOf limit (before ++ [run])) :
    isSettled limit runs = true := by
  induction runs using isSettled.induct limit with
  | case1 => rfl
  | case2 => rfl
  | case3 run next more hlen =>
    rw [isSettled, if_pos hlen]
    cases hblank : allBlank run with
    | false => rfl
    | true =>
      have hsame := h [] run (next :: more) rfl hlen
      rw [verdictOf_of_blank (by simp) hblank, List.nil_append, verdictOf, if_pos hlen] at hsame
      rw [(isRefused_iff limit _).2 hsame, Bool.or_true]
  | case4 run next more hlen ih =>
    rw [isSettled, if_neg hlen]
    refine ih fun before r after hsplit hr => ?_
    have hsame := h (run :: before) r after (by rw [hsplit]; rfl) hr
    rw [List.cons_append] at hsame
    cases hblank : allBlank run with
    | true =>
      rwa [verdictOf_of_blank (by simp) hblank, verdictOf_of_blank (by simp) hblank] at hsame
    | false =>
      rw [verdictOf_of_segment (by simp) hblank (Nat.not_lt.1 hlen),
        verdictOf_of_segment (by simp) hblank (Nat.not_lt.1 hlen)] at hsame
      simpa [Verdict.cons, Prod.ext_iff] using hsame

end Runs

/-! ## Verdicts of readers -/

namespace FrameReader

variable {r : FrameReader} {segment : Bytes}

/-- What a reader makes of its stream, up to the first error. -/
def verdict (r : FrameReader) : Verdict :=
  match _h : r.next with
  | (.ok (some segment), next) => next.verdict.cons segment
  | (.ok none, _) => ([], false)
  | (.error e, _) => ([], e.isTooLarge)
termination_by r.remaining
decreasing_by
  have hless := remaining_next_lt (show r.next.1 = .ok (some segment) by rw [_h])
  rwa [_h] at hless

/-- The equation of the verdict. -/
theorem verdict_eq (r : FrameReader) :
    r.verdict =
      match r.next with
      | (.ok (some segment), next) => next.verdict.cons segment
      | (.ok none, _) => ([], false)
      | (.error e, _) => ([], e.isTooLarge) := by
  rw [verdict]
  generalize r.next = answer
  obtain ⟨e | _ | segment, next⟩ := answer
  · rfl
  · rfl
  · rfl

theorem verdict_of_segment {next : FrameReader} (h : r.next = (.ok (some segment), next)) :
    r.verdict = next.verdict.cons segment := by
  rw [verdict_eq, h]

theorem verdict_of_none {next : FrameReader} (h : r.next = (.ok none, next)) :
    r.verdict = ([], false) := by
  rw [verdict_eq, h]

theorem verdict_of_error {e : FrameError} {next : FrameReader} (h : r.next = (.error e, next)) :
    r.verdict = ([], e.isTooLarge) := by
  rw [verdict_eq, h]

/-- Readers whose next call comes to the same make the same of their streams. -/
theorem verdict_congr {r' : FrameReader} (h : r.next = r'.next) : r.verdict = r'.verdict := by
  rw [verdict_eq, verdict_eq, h]

/-- A run that the segmenter refuses ends the verdict, -/
theorem verdict_of_tooLarge {size limit : Nat} {segmenter : Segmenter}
    (h : r.segmenter.next = (.error (.tooLarge size limit), segmenter)) : r.verdict = ([], true) :=
  verdict_of_error (next_of_answer h (by simp))

/-- and one that it hands out comes in front of what is made of the rest. -/
theorem verdict_of_handed {segmenter : Segmenter}
    (h : r.segmenter.next = (.ok (some segment), segmenter)) :
    r.verdict = Verdict.cons segment (FrameReader.verdict { r with segmenter }) :=
  verdict_of_segment (next_of_answer h (by simp))

/-! ### Streams that are decided -/

section Decided

variable {rest : Bytes}

/-- At the end of the stream, a reader without octets makes nothing of it. -/
theorem verdict_of_empty (hended : r.ended = true) (hs : r.segmenter.Searched)
    (hempty : r.segmenter.buffer = []) : r.verdict = ([], false) := by
  have hnone : r.segmenter.framing.delimiter ∉ ([] : Bytes) := by simp
  have hshort : ¬ r.segmenter.limit < ([] : Bytes).length := by simp
  have hnext : r.segmenter.next = (.ok none, (r.segmenter.behind []).waiting) := by
    rw [Segmenter.next_of_notMem hs (by rwa [hempty]), hempty, if_neg hshort]
    simp only [Segmenter.waiting, Segmenter.behind, hempty]
  obtain ⟨later, hcall, -, -⟩ :=
    next_of_drained (.inl hended) hnext (Segmenter.next_waiting hnone hshort)
  exact verdict_of_none hcall

/-- At the end of the stream, a reader makes a segment of the run that no delimiter closes, if it is
not blank. -/
theorem verdict_of_drained (hdrained : r.ended = true ∨ r.source.script = [])
    (hrest : r.segmenter.framing.delimiter ∉ rest) (hlen : ¬ r.segmenter.limit < rest.length)
    (hnext : r.segmenter.next = (.ok none, (r.segmenter.behind rest).waiting)) :
    r.verdict = (solid [rest], false) := by
  obtain ⟨later, hcall, hended, hbuffer⟩ :=
    next_of_drained hdrained hnext (Segmenter.next_waiting hrest hlen)
  change r.next = (if allBlank rest then .ok none else .ok (some rest), later) at hcall
  cases hblank : allBlank rest with
  | true =>
    rw [hblank, if_pos rfl] at hcall
    rw [verdict_of_none hcall]
    simp [solid, hblank]
  | false =>
    rw [hblank, if_neg Bool.false_ne_true] at hcall
    have hsearched : later.segmenter.Searched := by
      rw [hbuffer]
      exact Segmenter.searched_behind _ []
    have hlater := verdict_of_empty hended hsearched (by rw [hbuffer]; rfl)
    have hsolid : solid [rest] = [rest] := by simp [solid, hblank]
    rw [verdict_of_segment hcall, hlater, hsolid]
    rfl

/-- The source has nothing more to deliver, or the run under way is over the limit already. -/
def IsDecided (r : FrameReader) : Prop :=
  (r.ended = true ∨ r.source.script = []) ∨
    r.segmenter.limit < (openRun r.segmenter.framing.delimiter r.segmenter.buffer).length

/-- **A reader whose stream is decided** makes of it what its runs say. -/
theorem verdict_of_isDecided (hs : r.segmenter.Searched) (h : r.IsDecided) :
    r.verdict =
      verdictOf r.segmenter.limit (r.segmenter.buffer.splitOn r.segmenter.framing.delimiter) := by
  -- along the segments, each of which leaves the buffer
  induction hn : r.segmenter.buffer.length using Nat.strongRecOn generalizing r with
  | _ n ih =>
    obtain ⟨blanks, rest, hb, hblanks, hcases⟩ := Segmenter.next_cases hs
    have hmem : ∀ run ∈ blanks, r.segmenter.framing.delimiter ∉ run := fun run hrun =>
      (hblanks run hrun).2
    have hopen : openRun r.segmenter.framing.delimiter r.segmenter.buffer =
        openRun r.segmenter.framing.delimiter rest := by
      rw [hb, openRun_closing hmem]
    rw [IsDecided, hopen] at h
    rw [hb, splitOn_closing hmem,
      verdictOf_append (List.splitOn_ne_nil _ rest) fun run hrun => (hblanks run hrun).1]
    rcases hcases with ⟨hrest, hnext⟩ | ⟨run, after, rfl, hrun, hblank, hnext⟩
    · rw [List.splitOn_eq_singleton hrest, verdictOf]
      by_cases hlen : r.segmenter.limit < rest.length
      · rw [if_pos hlen] at hnext
        rw [if_pos hlen, verdict_of_tooLarge hnext]
      · rw [if_neg hlen] at hnext
        rw [openRun_of_notMem hrest] at h
        rw [if_neg hlen, verdict_of_drained (h.resolve_right hlen) hrest hlen hnext]
    · rw [splitOn_append_cons hrun]
      by_cases hlen : r.segmenter.limit < run.length
      · rw [if_pos hlen] at hnext
        rw [verdictOf_of_large (List.splitOn_ne_nil _ after) hblank hlen,
          verdict_of_tooLarge hnext]
      · rw [if_neg hlen] at hnext
        rw [verdictOf_of_segment (List.splitOn_ne_nil _ after) hblank (Nat.not_lt.1 hlen),
          verdict_of_handed hnext]
        have hshort : after.length < n := by
          rw [← hn, hb]
          simp only [List.length_append, List.length_cons]
          omega
        rw [openRun_append_cons hrun] at h
        rw [ih after.length hshort (r := { r with segmenter := r.segmenter.behind after })
          (Segmenter.searched_behind _ after) h rfl]
        rfl

end Decided

/-! ### Streams that are read -/

/-- **Every verdict of a reader is possible**, wherever its source cuts the stream. -/
theorem possible_verdict {more : Bytes} (hended : r.ended = false) (hroom : 0 < r.room)
    (hs : r.segmenter.Searched) (hsource : r.source.Delivers more) :
    Possible r.segmenter.limit
      ((r.segmenter.buffer ++ more).splitOn r.segmenter.framing.delimiter) r.verdict := by
  -- along the reads and the segments: octets that move to the buffer count once there, twice before
  induction hn : 2 * r.source.weight + r.segmenter.buffer.length using Nat.strongRecOn
    generalizing r more with
  | _ n ih =>
    obtain ⟨blanks, rest, hb, hblanks, hcases⟩ := Segmenter.next_cases hs
    have hshorter : rest.length ≤ r.segmenter.buffer.length := by
      rw [hb, List.length_append]
      omega
    rw [hb, List.append_assoc, splitOn_closing fun run hrun => (hblanks run hrun).2]
    refine Possible.append (List.splitOn_ne_nil _ _) (fun run hrun => (hblanks run hrun).1) ?_
    rcases hcases with ⟨hrest, hnext⟩ | ⟨run, after, rfl, hrun, hblank, hnext⟩
    · by_cases hlen : r.segmenter.limit < rest.length
      · rw [if_pos hlen] at hnext
        rw [verdict_of_tooLarge hnext]
        exact possible_of_start hrest hlen
      rw [if_neg hlen] at hnext
      have hsearched : (r.segmenter.behind rest).waiting.Searched :=
        Segmenter.searched_waiting hrest
      rcases hsource.read_cases hroom with
        ⟨f, next, hread, hint, hmore⟩ | ⟨rfl, next, hread, -⟩ |
          ⟨piece, later, next, hread, hpiece, rfl, hlater⟩
      · have hweight := Source.read_weight_lt_of_error hread
        rw [verdict_congr (next_of_interruption hended hnext hread hint)]
        refine ih _ ?_
          (r := { r with segmenter := (r.segmenter.behind rest).waiting, source := next })
          hended hroom hsearched hmore rfl
        simp only [Segmenter.waiting, Segmenter.behind]
        omega
      · rw [verdict_congr ((next_of_end hended hnext hread).trans (next_of_ended rfl).symm),
          verdict_of_isDecided hsearched (.inl (.inl rfl)), List.append_nil]
        exact possible_verdictOf _ (List.splitOn_ne_nil _ rest)
      · have hweight := Source.read_weight_add_le hread
        have hpos := List.length_pos_iff.2 hpiece
        rw [verdict_congr (next_of_octets hended hnext hread hpiece), ← List.append_assoc]
        refine ih _ ?_
          (r := { r with
            segmenter := (r.segmenter.behind rest).waiting.feed piece, source := next })
          hended hroom (hsearched.feed piece) hlater rfl
        simp only [Segmenter.waiting, Segmenter.behind, Segmenter.feed, List.length_append]
        omega
    · rw [List.append_assoc, List.cons_append, splitOn_append_cons hrun]
      by_cases hlen : r.segmenter.limit < run.length
      · rw [if_pos hlen] at hnext
        rw [verdict_of_tooLarge hnext]
        exact .refused (List.splitOn_ne_nil _ _) hlen
      · rw [if_neg hlen] at hnext
        rw [verdict_of_handed hnext]
        refine .handed (List.splitOn_ne_nil _ _) hblank (Nat.not_lt.1 hlen) ?_
        refine ih _ ?_ (r := { r with segmenter := r.segmenter.behind after }) hended hroom
          (Segmenter.searched_behind _ after) hsource rfl
        rw [List.length_append, List.length_cons] at hshorter
        simp only [Segmenter.behind]
        omega

/-- A reader that gets a piece at once, which leaves its stream decided, makes of the stream what
the runs of the piece say. -/
theorem verdict_of_piece (framing : Framing) (limit : Nat) {piece : Bytes} {rest : List Delivery}
    (hpiece : piece ≠ [])
    (h : rest = [] ∨ limit < (openRun framing.delimiter piece).length) :
    (ofConfig ⟨framing, limit, piece.length⟩ ⟨.data piece :: rest, 0⟩).verdict =
      verdictOf limit (piece.splitOn framing.delimiter) := by
  let r := ofConfig ⟨framing, limit, piece.length⟩ ⟨.data piece :: rest, 0⟩
  have hsearched : r.segmenter.Searched := Segmenter.searched_of_zero rfl
  have hnext : r.segmenter.next = (.ok none, r.segmenter.waiting) := by
    rw [Segmenter.next_of_notMem hsearched (by simp [r, ofConfig])]
    rfl
  have hread : r.source.read r.room = (.ok piece, ⟨rest, 1⟩) := by
    have hroom : piece.length ≤ max piece.length 1 := Nat.le_max_left _ _
    simp [r, ofConfig, FrameConfig.room, Source.read, hroom]
  rw [verdict_congr (next_of_octets (r := r) rfl hnext hread hpiece)]
  have hwaiting : r.segmenter.waiting.Searched := Segmenter.searched_waiting (by simp [r, ofConfig])
  refine verdict_of_isDecided (hwaiting.feed piece) ?_
  rcases h with hrest | hlen
  · exact .inl (.inr hrest)
  · exact .inr hlen

/-- The stream in one piece and the stream cut in front of a delimiter, which leaves a run over the
limit open: where the verdicts agree, those of the runs do. -/
theorem verdictOf_eq_of_cut (framing : Framing) (limit : Nat) {stream run first : Bytes}
    {before behind : List Bytes}
    (hruns : stream.splitOn framing.delimiter = before ++ run :: first :: behind)
    (hlen : limit < run.length)
    (hsame : ∀ (s s' : Source) (chunk chunk' : Nat), s.Delivers stream → s'.Delivers stream →
      (ofConfig ⟨framing, limit, chunk⟩ s).verdict =
        (ofConfig ⟨framing, limit, chunk'⟩ s').verdict) :
    verdictOf limit (stream.splitOn framing.delimiter) = verdictOf limit (before ++ [run]) := by
  obtain ⟨tail, htail⟩ := eq_closing_append hruns
  let start := closing framing.delimiter before ++ run
  have hrunmem : ∀ r ∈ before ++ run :: first :: behind, framing.delimiter ∉ r := by
    rw [← hruns]
    exact fun r hr => notMem_of_mem_splitOn hr
  have hbefore : ∀ r ∈ before, framing.delimiter ∉ r := fun r hr =>
    hrunmem r (List.mem_append_left _ hr)
  have hrun : framing.delimiter ∉ run :=
    hrunmem run (List.mem_append_right _ List.mem_cons_self)
  have hstart : start ≠ [] := by
    rw [← List.length_pos_iff, List.length_append]
    omega
  have hstream : stream ≠ [] := by simp [htail]
  have hwhole : (Source.ofBytes stream).Delivers stream := Source.delivers_ofBytes hstream
  have hcut : (Source.mk [.data start, .data (framing.delimiter :: tail)] 0).Delivers stream := by
    constructor
    · simpa [Delivery.IsQuiet] using hstart
    · simpa [start] using htail.symm
  have hlast : openRun framing.delimiter start = run := by
    rw [openRun_closing hbefore, openRun_of_notMem hrun]
  have hsplit : start.splitOn framing.delimiter = before ++ [run] := by
    rw [splitOn_closing hbefore, List.splitOn_eq_singleton hrun]
  have hverdicts := hsame _ _ stream.length start.length hwhole hcut
  rwa [verdict_of_piece framing limit hstart (.inr (by rwa [hlast])), hsplit,
    Source.ofBytes, verdict_of_piece framing limit hstream (.inl rfl)] at hverdicts

/-- **Where the limit's verdict does not depend on the cuts.** Two readers of a stream hand out the
same segments up to the first error and agree on whether the limit was that error, however either
of them cuts the stream and wherever it is interrupted, exactly when the runs of the stream are
settled. -/
theorem verdict_eq_iff_settled (framing : Framing) (limit : Nat) (stream : Bytes) :
    (∀ (s s' : Source) (chunk chunk' : Nat), s.Delivers stream → s'.Delivers stream →
      (ofConfig ⟨framing, limit, chunk⟩ s).verdict =
        (ofConfig ⟨framing, limit, chunk'⟩ s').verdict) ↔
      isSettled limit (stream.splitOn framing.delimiter) = true := by
  constructor
  · intro hsame
    refine isSettled_of_forall_split fun before run after hruns hlen => ?_
    cases after with
    | nil => rw [hruns]
    | cons first behind => exact verdictOf_eq_of_cut framing limit hruns hlen hsame
  · intro hsettled s s' chunk chunk' hs hs'
    have hroom (chunk : Nat) : 0 < max chunk 1 := Nat.le_max_right chunk 1
    have hone (chunk : Nat) (s : Source) (hs : s.Delivers stream) :
        (ofConfig ⟨framing, limit, chunk⟩ s).verdict =
          verdictOf limit (stream.splitOn framing.delimiter) :=
      (possible_verdict (r := ofConfig ⟨framing, limit, chunk⟩ s) rfl (hroom chunk)
        (Segmenter.searched_of_zero rfl) hs).of_isSettled hsettled
    rw [hone chunk s hs, hone chunk' s' hs']

/-- A blank line over the limit in front of a short one: dropped or refused, as it comes. -/
example : isSettled 3 [[0x20, 0x20, 0x20, 0x20, 0x20], [0x61, 0x62], []] = false := by decide

end FrameReader

end WarcStream
