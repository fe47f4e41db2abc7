import WarcStream.Command.Program
import WarcStream.Proofs.Command.Rendering
import WarcStream.Proofs.Command.Verdict
import WarcStream.Proofs.Message.Agreement
/-!
# Printing up to a count

A stream is printed up to where its reader stops, or up to the count that was
asked for. What is printed is the rendering of these messages, and the command
fails just if the reader met an error before the count was reached. The octets
that settle that many messages decide all of it: inputs that agree on them are
printed alike (`dumpSource_of_agrees`). `dump_before_stop` puts these together.
-/

namespace WarcStream.Command

open Transport Bytes

variable {r r' : MessageReader} {s s' : Source} {octets octets' p : Bytes} {n : Nat}
variable {stop : Option MessageError} {ms : List Message} {shared : Shared}

/-- None are taken where none are wanted. -/
theorem takeMessages_zero (r : MessageReader) : takeMessages r (some 0) = ⟨[], none, r.count, []⟩ := by
  rw [takeMessages_eq]
  rfl

/-- The same was taken, but for what was reported on the way. -/
structure Taken.Alike (taken taken' : Taken) : Prop where
  messages_eq : taken.messages = taken'.messages
  error_eq : taken.error = taken'.error
  count_eq : taken.count = taken'.count

/-- Readers that agree have handed out as many. -/
theorem count_of_agrees (h : r.Agrees n r') : r.count = r'.count := by
  cases h <;> rfl

/-- **Readers that agree on as many messages as are wanted** are taken the same from. -/
theorem takeMessages_of_agrees (h : r.Agrees n r') :
    (takeMessages r (some n)).Alike (takeMessages r' (some n)) := by
  induction n generalizing r r' with
  | zero =>
    rw [takeMessages_zero, takeMessages_zero]
    exact ⟨rfl, rfl, count_of_agrees h⟩
  | succ n ih =>
    have hwanted : isWanted (some (n + 1)) = true := rfl
    obtain ⟨hanswer, hlater⟩ := h.next
    have hstop (stop : Option MessageError) (hnext : r.next.1 = stop.elim (.ok none) .error) :
        (takeMessages r (some (n + 1))).Alike (takeMessages r' (some (n + 1))) := by
      have hleft : r.next = (stop.elim (.ok none) .error, r.next.2) := Prod.ext hnext rfl
      have hright : r'.next = (stop.elim (.ok none) .error, r'.next.2) :=
        Prod.ext (hanswer.symm.trans hnext) rfl
      rw [takeMessages_of_stop hwanted hleft, takeMessages_of_stop hwanted hright]
      refine ⟨rfl, rfl, ?_⟩
      rw [MessageReader.count_of_stop hleft, MessageReader.count_of_stop hright]
      exact count_of_agrees h
    match hnext : r.next.1 with
    | .error e => exact hstop (some e) hnext
    | .ok none => exact hstop none hnext
    | .ok (some m) =>
      obtain ⟨events, htake⟩ := takeMessages_of_message hwanted (Prod.ext hnext rfl)
      obtain ⟨events', htake'⟩ :=
        takeMessages_of_message hwanted (Prod.ext (hanswer.symm.trans hnext) rfl)
      have halike := ih (hlater m hnext)
      rw [htake, htake']
      exact ⟨congrArg (m :: ·) halike.messages_eq, halike.error_eq, halike.count_eq⟩

/-- **Inputs that agree on the octets that settle the count** are printed alike, and end alike. -/
theorem dumpSource_of_agrees (hs : s.Readable octets) (hs' : s'.Readable octets')
    (hagrees : Source.Agrees p s s') (hsettles : shared.config.Settles p n) :
    (dumpSource shared (some n) s').output = (dumpSource shared (some n) s).output ∧
      (dumpSource shared (some n) s').failure = (dumpSource shared (some n) s).failure := by
  have halike : (takeMessages (.ofConfig shared.config s) (some n)).Alike
      (takeMessages (.ofConfig shared.config s') (some n)) := by
    cases n with
    | zero =>
      rw [takeMessages_zero, takeMessages_zero]
      exact ⟨rfl, rfl, rfl⟩
    | succ n => exact takeMessages_of_agrees (MessageReader.agrees_ofConfig hs hs' hagrees hsettles)
  rw [dumpSource, dumpSource]
  dsimp only
  rw [← halike.messages_eq, ← halike.error_eq, ← halike.count_eq]
  cases (takeMessages (.ofConfig shared.config s) (some n)).error with
  | none => exact ⟨rfl, rfl⟩
  | some e => exact ⟨rfl, rfl⟩

/-- The count is reached if there is one, and there are as many messages. -/
theorem isReached_iff {count : Option Nat} {length : Nat} :
    isReached count length = true ↔ ∃ n, count = some n ∧ n ≤ length := by
  simp [isReached, Option.any_eq_true]

/-- **How printing ends.** It succeeds where the count is reached, or the stream ends; else the data
is wrong, and no message was left out. -/
theorem dumpSource_end_cases (hyields : (MessageReader.ofConfig shared.config s).Yields ms stop)
    (hstop : ∀ e, stop = some e → e.IsContent) (count : Option Nat) :
    (((∃ n, count = some n ∧ n ≤ ms.length) ∨ stop = none) ∧
      (dumpSource shared count s).code = successCode) ∨
    ((¬ ∃ n, count = some n ∧ n ≤ ms.length) ∧ (dumpSource shared count s).code = dataCode ∧
      ∃ e, stop = some e ∧ (dumpSource shared count s).failure =
        some (.ofMessage ("decode failed after " ++ toString ms.length ++ " messages") e)) := by
  obtain ⟨events, hdump⟩ := dumpSource_of_yields hyields count
  have hfailure := congrArg Outcome.failure hdump
  by_cases hreached : isReached count ms.length = true
  · rw [if_pos hreached] at hfailure
    exact .inl ⟨.inl (isReached_iff.1 hreached), Outcome.code_of_none hfailure⟩
  · rw [if_neg hreached] at hfailure
    have hunreached : ¬ ∃ n, count = some n ∧ n ≤ ms.length := mt isReached_iff.2 hreached
    cases stop with
    | none => exact .inl ⟨.inr rfl, Outcome.code_of_none hfailure⟩
    | some e =>
      have hall : ms.take (count.getD ms.length) = ms := by
        refine List.take_of_length_le ?_
        cases count with
        | none => exact Nat.le_refl _
        | some n => exact Nat.le_of_not_le fun hle => hunreached ⟨n, rfl, hle⟩
      rw [hall] at hfailure
      exact .inr ⟨hunreached,
        (Outcome.code_of_some hfailure).trans (Failure.code_ofMessage (hstop e rfl) _),
        e, rfl, hfailure⟩

/-- **Printing a stream.** Of the messages that its reader yields, those up to the count are printed,
in the chosen format. The command succeeds just if the count is reached within them, or the stream
ends behind them; else the data is wrong, and the failure says how many there were. Whatever follows
the octets that settle the count makes no difference. -/
theorem dump_before_stop (shared : Shared) (input : Input) (count : Option Nat) (s : Source)
    (octets : Bytes) (hs : s.Readable octets) :
    let run (s : Source) := Invocation.run ⟨shared, .dump input count⟩ (.ok s)
    ∃ ms stop, (MessageReader.ofConfig shared.config s).Yields ms stop ∧
      (run s).output = shared.output.rendering (ms.take (count.getD ms.length)) ∧
      ((run s).code = successCode ↔ (∃ n, count = some n ∧ n ≤ ms.length) ∨ stop = none) ∧
      ((run s).code ≠ successCode → (run s).code = dataCode ∧ ∃ e, stop = some e ∧
        (run s).failure =
          some (.ofMessage ("decode failed after " ++ toString ms.length ++ " messages") e)) ∧
      ∀ n p s' octets', count = some n → shared.config.Settles p n → s'.Readable octets' →
        Source.Agrees p s s' → (run s').output = (run s).output ∧
          (run s').failure = (run s).failure ∧ (run s').code = (run s).code := by
  intro run
  obtain ⟨ms, stop, hyields, hstop⟩ := MessageReader.yields_of_readable shared.config hs
  obtain ⟨events, hdump⟩ := dumpSource_of_yields hyields count
  have houtput : (run s).output = shared.output.rendering (ms.take (count.getD ms.length)) := by
    rw [← MessagePrinter.finish_printAll]
    exact congrArg Outcome.output hdump
  refine ⟨ms, stop, hyields, houtput, ?_, ?_, ?_⟩
  · rcases dumpSource_end_cases hyields hstop count with
      ⟨hends, hcode⟩ | ⟨hunreached, hcode, e, hsome, -⟩
    · exact iff_of_true hcode hends
    · refine iff_of_false (fun hsuccess => absurd (hcode.symm.trans hsuccess) (by decide)) ?_
      rintro (hreached | hnone)
      · exact hunreached hreached
      · rw [hsome] at hnone
        cases hnone
  · intro hfails
    rcases dumpSource_end_cases hyields hstop count with ⟨-, hcode⟩ | ⟨-, hcode, hfailure⟩
    · exact absurd hcode hfails
    · exact ⟨hcode, hfailure⟩
  · rintro n p s' octets' rfl hsettles hs' hagrees
    obtain ⟨houtput', hfailure'⟩ := dumpSource_of_agrees hs hs' hagrees hsettles
    exact ⟨houtput', hfailure', congrArg (fun failure => Outcome.code ⟨[], [], failure⟩) hfailure'⟩

/-- Two messages on their lines. -/
def twoLines : Bytes := Text.bytes "\"EndOfFile\"\n\"EndOfFile\"\n"

/-- They are lines of the stream, and rows of a table. -/
def tabled : Shared := { stream := .jsonLines, output := .table }

/-- Behind them no octet is seen where they are all that is wanted. Where more is wanted, one that
is no message is. -/
theorem dump_before_stop_twoLines :
    let run (count : Option Nat) (more : Bytes) :=
      Invocation.run ⟨tabled, .dump .stdin count⟩ (.ok (.ofBytes (twoLines ++ more)))
    (Source.ofBytes (twoLines ++ [0x78])).Readable (twoLines ++ [0x78]) ∧
      tabled.config.Settles twoLines 2 ∧
      (∀ more, (run (some 2) more).output = (run (some 2) []).output ∧
        (run (some 2) more).code = successCode) ∧
      (run none [0x78]).code = dataCode := by
  intro run
  have hs (more : Bytes) := Source.readable_ofBytes (twoLines ++ more)
  have hsettles : tabled.config.Settles twoLines 2 := by
    change 2 ≤ (solid (closedRuns 0x0a twoLines)).length
    decide +kernel
  refine ⟨hs [0x78], hsettles, fun more => ?_, ?_⟩
  · obtain ⟨_, _, -, -, -, -, hsame⟩ := dump_before_stop tabled .stdin (some 2) _ _ (hs [])
    obtain ⟨houtput, -, hcode⟩ :=
      hsame 2 twoLines _ _ rfl hsettles (hs more) (Source.agrees_ofBytes twoLines [] more)
    exact ⟨houtput, hcode.trans (by decide +kernel)⟩
  · obtain ⟨_, _, -, -, -, hfails, -⟩ := dump_before_stop tabled .stdin none _ _ (hs [0x78])
    exact (hfails (by decide +kernel)).1

end WarcStream.Command
