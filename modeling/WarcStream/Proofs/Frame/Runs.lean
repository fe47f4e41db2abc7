import WarcStream.Frame.Segmenter
import Mathlib.Data.List.Basic
/-!
# The runs of a stream

A delimiter cuts a stream into runs: `List.splitOn` is the split that a reader
must come to, whatever it has seen of the stream so far. `closedRuns` are the
runs that a delimiter closes, `openRun` is the one behind the last delimiter,
and `closedRuns_append` says how both grow as octets arrive. `next_of_notMem`
and `next_of_append` say what a segmenter hands out in terms of them; neither
mentions how far the buffer has been searched.
-/

namespace WarcStream

namespace Bytes

variable {d : UInt8} {xs ys run after : Bytes}

/-- The runs that are not blank throughout. -/
def solid (runs : List Bytes) : List Bytes := runs.filter fun run => !allBlank run

/-- The runs that a delimiter closes. -/
def closedRuns (d : UInt8) (bs : Bytes) : List Bytes := (bs.splitOn d).dropLast

/-- The run behind the last delimiter. -/
def openRun (d : UInt8) (bs : Bytes) : Bytes := (bs.splitOn d).getLastD []

theorem splitAt?_of_notMem (h : d ∉ xs) : splitAt? d xs = none := by
  induction xs with
  | nil => rfl
  | cons b rest ih =>
    have hb : (b == d) = false := by
      rw [beq_eq_false_iff_ne]
      rintro rfl
      exact h List.mem_cons_self
    rw [splitAt?, hb, ih fun hmem => h (List.mem_cons_of_mem b hmem)]
    rfl

/-- Octets without the delimiter in front of the search do not change where it ends. -/
theorem splitAt?_append (h : d ∉ xs) :
    splitAt? d (xs ++ ys) =
      (splitAt? d ys).map fun (before, after) => (xs ++ before, after) := by
  induction xs with
  | nil => simp
  | cons b rest ih =>
    have hb : (b == d) = false := by
      rw [beq_eq_false_iff_ne]
      rintro rfl
      exact h List.mem_cons_self
    rw [List.cons_append, splitAt?, hb, ih fun hmem => h (List.mem_cons_of_mem b hmem)]
    cases splitAt? d ys <;> simp

theorem splitAt?_append_cons (h : d ∉ run) :
    splitAt? d (run ++ d :: after) = some (run, after) := by
  rw [splitAt?_append h, splitAt?]
  simp

/-! ## Closed runs and the open one -/

/-- The runs of a stream are the closed ones and the open one. -/
theorem splitOn_eq (d : UInt8) (bs : Bytes) :
    bs.splitOn d = closedRuns d bs ++ [openRun d bs] := by
  have hne : bs.splitOn d ≠ [] := List.splitOn_ne_nil d bs
  rw [closedRuns, openRun, List.getLastD_eq_getLast?, List.getLast?_eq_some_getLast hne]
  exact (List.dropLast_concat_getLast hne).symm

theorem closedRuns_of_notMem (h : d ∉ xs) : closedRuns d xs = [] := by
  rw [closedRuns, List.splitOn_eq_singleton h]
  rfl

theorem openRun_of_notMem (h : d ∉ xs) : openRun d xs = xs := by
  rw [openRun, List.splitOn_eq_singleton h]
  rfl

theorem splitOn_append_cons (h : d ∉ run) :
    (run ++ d :: after).splitOn d = run :: after.splitOn d :=
  List.splitOn_append_cons_self_of_not_mem h after

theorem closedRuns_append_cons (h : d ∉ run) :
    closedRuns d (run ++ d :: after) = run :: closedRuns d after := by
  rw [closedRuns, splitOn_append_cons h, List.dropLast_cons_of_ne_nil (List.splitOn_ne_nil d after)]
  rfl

theorem openRun_append_cons (h : d ∉ run) :
    openRun d (run ++ d :: after) = openRun d after := by
  rw [openRun, openRun, splitOn_append_cons h, splitOn_eq d after, ← List.cons_append]
  simp only [List.getLastD_concat]

/-- No run holds the delimiter. -/
theorem notMem_of_mem_splitOn (h : run ∈ xs.splitOn d) : d ∉ run := by
  -- along the runs, by the length of what is behind the first delimiter
  induction hn : xs.length using Nat.strongRecOn generalizing xs with
  | _ n ih =>
    by_cases hmem : d ∈ xs
    · obtain ⟨first, after, rfl, hfirst⟩ := List.eq_append_cons_of_mem hmem
      rw [splitOn_append_cons hfirst] at h
      rcases List.mem_cons.1 h with rfl | h
      · exact hfirst
      · exact ih after.length (by simp [← hn]; omega) h rfl
    · rw [List.splitOn_eq_singleton hmem] at h
      rwa [List.mem_singleton.1 h]

theorem notMem_openRun (d : UInt8) (bs : Bytes) : d ∉ openRun d bs := by
  have hmem : openRun d bs ∈ bs.splitOn d := by
    rw [splitOn_eq]
    exact List.mem_append_right _ (List.mem_singleton_self _)
  exact notMem_of_mem_splitOn hmem

/-- **The split of a stream in two parts.** What arrives is split together with the run that was
left open, and the runs closed before stay as they are. -/
theorem splitOn_append (d : UInt8) (xs ys : Bytes) :
    (xs ++ ys).splitOn d = closedRuns d xs ++ (openRun d xs ++ ys).splitOn d := by
  induction hn : xs.length using Nat.strongRecOn generalizing xs with
  | _ n ih =>
    by_cases hmem : d ∈ xs
    · obtain ⟨run, after, rfl, hrun⟩ := List.eq_append_cons_of_mem hmem
      rw [closedRuns_append_cons hrun, openRun_append_cons hrun, List.append_assoc,
        List.cons_append, splitOn_append_cons hrun,
        ih after.length (by simp [← hn]; omega) after rfl, List.cons_append]
    · rw [closedRuns_of_notMem hmem, openRun_of_notMem hmem, List.nil_append]

theorem closedRuns_append (d : UInt8) (xs ys : Bytes) :
    closedRuns d (xs ++ ys) = closedRuns d xs ++ closedRuns d (openRun d xs ++ ys) := by
  rw [closedRuns, splitOn_append, List.dropLast_append_of_ne_nil (List.splitOn_ne_nil d _)]
  rfl

theorem openRun_append (d : UInt8) (xs ys : Bytes) :
    openRun d (xs ++ ys) = openRun d (openRun d xs ++ ys) := by
  rw [openRun, splitOn_append, splitOn_eq d (openRun d xs ++ ys)]
  simp

theorem solid_append (xs ys : List Bytes) : solid (xs ++ ys) = solid xs ++ solid ys :=
  List.filter_append ..

/-- Runs with the delimiters that close them. -/
def closing (d : UInt8) (runs : List Bytes) : Bytes := runs.flatMap fun run => run ++ [d]

theorem closing_cons (d : UInt8) (run : Bytes) (runs : List Bytes) :
    closing d (run :: runs) ++ after = run ++ d :: (closing d runs ++ after) := by
  simp [closing]

theorem splitOn_closing {runs : List Bytes} (h : ∀ run ∈ runs, d ∉ run) :
    (closing d runs ++ after).splitOn d = runs ++ after.splitOn d := by
  induction runs with
  | nil => rfl
  | cons run rest ih =>
    rw [closing_cons, splitOn_append_cons (h run List.mem_cons_self),
      ih fun r hr => h r (List.mem_cons_of_mem run hr), List.cons_append]

theorem openRun_closing {runs : List Bytes} (h : ∀ run ∈ runs, d ∉ run) :
    openRun d (closing d runs ++ after) = openRun d after := by
  rw [openRun, openRun, splitOn_closing h, splitOn_eq d after, ← List.append_assoc,
    List.getLastD_concat, List.getLastD_concat]

/-- A stream from its runs. -/
theorem eq_closing_append {before behind : List Bytes} {first : Bytes}
    (h : xs.splitOn d = before ++ run :: first :: behind) :
    ∃ after, xs = closing d before ++ run ++ d :: after := by
  have hwhole : xs = [d].intercalate (before ++ run :: first :: behind) := by
    rw [← h, List.intercalate_splitOn]
  refine ⟨[d].intercalate (first :: behind), ?_⟩
  rw [hwhole]
  clear h hwhole
  induction before with
  | nil => simp [closing, List.intercalate_cons_cons]
  | cons r rest ih =>
    rw [List.cons_append, List.intercalate_cons_of_ne_nil (by simp), ih]
    simp [closing]

/-- No run of a stream is over the limit. -/
def Fits (d : UInt8) (limit : Nat) (bs : Bytes) : Prop := ∀ run ∈ bs.splitOn d, run.length ≤ limit

section Fits

variable {limit : Nat}

/-- What is behind closed runs fits where the whole does. -/
theorem Fits.of_closing {runs : List Bytes} (h : Fits d limit (closing d runs ++ after))
    (hruns : ∀ run ∈ runs, d ∉ run) : Fits d limit after := by
  intro run hrun
  refine h run ?_
  rw [splitOn_closing hruns]
  exact List.mem_append_right runs hrun

/-- The run before a delimiter fits, and what is behind it does. -/
theorem Fits.of_append_cons (h : Fits d limit (run ++ d :: after)) (hrun : d ∉ run) :
    run.length ≤ limit ∧ Fits d limit after := by
  rw [Fits, splitOn_append_cons hrun] at h
  exact ⟨h run List.mem_cons_self, fun r hr => h r (List.mem_cons_of_mem run hr)⟩

/-- The start of a run fits where the run does. -/
theorem Fits.length_le (h : Fits d limit (xs ++ ys)) (hxs : d ∉ xs) : xs.length ≤ limit := by
  by_cases hmem : d ∈ ys
  · obtain ⟨run, after, rfl, hrun⟩ := List.eq_append_cons_of_mem hmem
    rw [← List.append_assoc] at h
    have hboth : d ∉ xs ++ run := by
      rw [List.mem_append]
      exact not_or.2 ⟨hxs, hrun⟩
    have := (h.of_append_cons hboth).1
    rw [List.length_append] at this
    omega
  · have hboth : d ∉ xs ++ ys := by
      rw [List.mem_append]
      exact not_or.2 ⟨hxs, hmem⟩
    have := h (xs ++ ys) (by rw [List.splitOn_eq_singleton hboth]; exact List.mem_singleton_self _)
    rw [List.length_append] at this
    omega

/-- The start of a stream fits where the whole does. -/
theorem Fits.of_append (h : Fits d limit (xs ++ ys)) : Fits d limit xs := by
  intro run hrun
  rw [Fits, splitOn_append] at h
  rw [splitOn_eq] at hrun
  rcases List.mem_append.1 hrun with hrun | hrun
  · exact h run (List.mem_append_left _ hrun)
  · obtain rfl := List.mem_singleton.1 hrun
    have hopen : Fits d limit (openRun d xs ++ ys) := fun r hr => h r (List.mem_append_right _ hr)
    exact hopen.length_le (notMem_openRun d xs)

end Fits

/-- The runs that are not blank, of a stream in two parts. -/
theorem solid_splitOn_append (d : UInt8) (xs ys : Bytes) :
    solid ((xs ++ ys).splitOn d) =
      solid (closedRuns d xs) ++ solid ((openRun d xs ++ ys).splitOn d) := by
  rw [splitOn_append, solid_append]

end Bytes

namespace Segmenter

open Bytes

variable {s : Segmenter} {run after octets : Bytes}

/-- What has been searched is in the buffer and holds no delimiter. -/
structure Searched (s : Segmenter) : Prop where
  le_length : s.searched ≤ s.buffer.length
  notMem : s.framing.delimiter ∉ s.buffer.take s.searched

/-- Nothing has been searched. -/
theorem searched_of_zero (h : s.searched = 0) : s.Searched :=
  ⟨by omega, by rw [h]; simp⟩

/-- Octets that arrive come behind what has been searched. -/
theorem Searched.feed (h : s.Searched) (octets : Bytes) : (s.feed octets).Searched := by
  constructor
  · have := h.le_length
    simp only [Segmenter.feed, List.length_append]
    omega
  · rw [Segmenter.feed, List.take_append_of_le_length h.le_length]
    exact h.notMem

/-- Searching the rest of the buffer finds what searching the whole would. -/
theorem cut?_eq (h : s.Searched) : s.cut? = splitAt? s.framing.delimiter s.buffer := by
  conv_rhs => rw [← List.take_append_drop s.searched s.buffer]
  rw [splitAt?_append h.notMem]
  rfl

/-- The segmenter once all of its buffer has been searched. -/
def waiting (s : Segmenter) : Segmenter := { s with searched := s.buffer.length }

/-- The segmenter with what is behind a delimiter. -/
def behind (s : Segmenter) (after : Bytes) : Segmenter := { s with searched := 0, buffer := after }

theorem searched_behind (s : Segmenter) (after : Bytes) : (s.behind after).Searched :=
  searched_of_zero rfl

theorem searched_waiting (h : s.framing.delimiter ∉ s.buffer) : s.waiting.Searched := by
  constructor
  · exact Nat.le_refl _
  · simpa [waiting] using h

/-- **Without a delimiter** the buffer waits, and is refused where it is over the limit. -/
theorem next_of_notMem (hs : s.Searched) (h : s.framing.delimiter ∉ s.buffer) :
    s.next =
      (if s.limit < s.buffer.length then .error (.tooLarge s.buffer.length s.limit) else .ok none,
        s.waiting) := by
  have hcut : s.cut? = none := by rw [cut?_eq hs, splitAt?_of_notMem h]
  rw [next]
  split
  · simp only [waiting]
    split <;> rfl
  · rename_i segment rest hsome
    rw [hcut] at hsome
    exact absurd hsome (by simp)

/-- Asking again before more has arrived changes nothing. -/
theorem next_waiting (h : s.framing.delimiter ∉ after) (hlen : ¬ s.limit < after.length) :
    (s.behind after).waiting.next = (.ok none, (s.behind after).waiting) := by
  have hagain := next_of_notMem (s := (s.behind after).waiting) (searched_waiting h) h
  exact hagain.trans (Prod.ext (if_neg hlen) rfl)

/-- **With a delimiter** the run before it leaves the buffer: unseen if it is blank, refused if it
is over the limit, and handed out otherwise. -/
theorem next_of_append (hs : s.Searched) (hb : s.buffer = run ++ s.framing.delimiter :: after)
    (hrun : s.framing.delimiter ∉ run) :
    s.next =
      if allBlank run then (s.behind after).next
      else if s.limit < run.length then (.error (.tooLarge run.length s.limit), s.behind after)
      else (.ok (some run), s.behind after) := by
  have hcut : s.cut? = some (run, after) := by rw [cut?_eq hs, hb, splitAt?_append_cons hrun]
  rw [next]
  split
  · rename_i hnone
    rw [hcut] at hnone
    exact absurd hnone (by simp)
  · rename_i segment rest hsome
    rw [hcut] at hsome
    obtain ⟨rfl, rfl⟩ := Prod.mk.inj (Option.some.inj hsome)
    rfl

/-- **All that the segmenter can do** when it is asked for a segment: it drops closed runs that are
blank, and then waits for the run behind them, refuses it, or hands it out. -/
theorem next_cases (hs : s.Searched) :
    ∃ blanks rest, s.buffer = closing s.framing.delimiter blanks ++ rest ∧
      (∀ run ∈ blanks, allBlank run = true ∧ s.framing.delimiter ∉ run) ∧
      ((s.framing.delimiter ∉ rest ∧
          s.next =
            (if s.limit < rest.length then .error (.tooLarge rest.length s.limit) else .ok none,
              (s.behind rest).waiting)) ∨
        ∃ run after, rest = run ++ s.framing.delimiter :: after ∧
          s.framing.delimiter ∉ run ∧ allBlank run = false ∧
          s.next =
            (if s.limit < run.length then .error (.tooLarge run.length s.limit)
              else .ok (some run), s.behind after)) := by
  -- along the blank runs at the front of the buffer
  induction hn : s.buffer.length using Nat.strongRecOn generalizing s with
  | _ n ih =>
    by_cases hmem : s.framing.delimiter ∈ s.buffer
    · obtain ⟨run, after, hb, hrun⟩ := List.eq_append_cons_of_mem hmem
      have hnext := next_of_append hs hb hrun
      cases hblank : allBlank run with
      | true =>
        rw [hblank, if_pos rfl] at hnext
        have hshort : after.length < n := by
          rw [← hn, hb, List.length_append, List.length_cons]
          omega
        obtain ⟨blanks, rest, hafter, hblanks, hcases⟩ :=
          ih after.length hshort (s.searched_behind after) rfl
        refine ⟨run :: blanks, rest, ?_, ?_, ?_⟩
        · rw [hb, closing_cons]
          exact congrArg (fun bs => run ++ s.framing.delimiter :: bs) hafter
        · intro r hr
          rcases List.mem_cons.1 hr with rfl | hr
          · exact ⟨hblank, hrun⟩
          · exact hblanks r hr
        · rw [hnext]
          exact hcases
      | false =>
        refine ⟨[], s.buffer, rfl, by simp, .inr ⟨run, after, hb, hrun, hblank, ?_⟩⟩
        rw [hnext, hblank, if_neg Bool.false_ne_true]
        split <;> rfl
    · exact ⟨[], s.buffer, rfl, by simp, .inl ⟨hmem, next_of_notMem hs hmem⟩⟩

end Segmenter

end WarcStream
