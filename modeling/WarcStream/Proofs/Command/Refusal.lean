import WarcStream.Proofs.Command.Lines
import WarcStream.Proofs.Command.Printing
import WarcStream.Proofs.Command.Verdict
/-!
# Exit codes on an input that can be read

Whatever an input holds, a stream is printed or checked with success, or its
data is wrong. Lines are written so as well, up to one whose octets are no text:
it is taken for a failure of the input, and the code is that of an internal
error (`code_of_readable`).
-/

namespace WarcStream.Command

open Transport

variable {s : Source} {octets : Bytes}

/-- **Printing** an input that can be read succeeds, or the data is wrong. -/
theorem dumpSource_code (shared : Shared) (count : Option Nat) (hs : s.Readable octets) :
    (dumpSource shared count s).code = successCode ∨
      (dumpSource shared count s).code = dataCode := by
  obtain ⟨ms, stop, hyields, hstop⟩ := MessageReader.yields_of_readable shared.config hs
  obtain ⟨events, hdump⟩ := dumpSource_of_yields hyields count
  rw [hdump]
  cases isReached count ms.length with
  | true => exact .inl rfl
  | false =>
    cases stop with
    | none => exact .inl rfl
    | some e => exact .inr (Failure.code_ofMessage (hstop e rfl) _)

/-- **Checking** it succeeds, or the data is wrong. -/
theorem checkSource_code (shared : Shared) (requireEnd : Bool) (hs : s.Readable octets) :
    (checkSource shared requireEnd s).code = successCode ∨
      (checkSource shared requireEnd s).code = dataCode := by
  obtain ⟨ms, stop, hyields, hstop⟩ := MessageReader.yields_of_readable shared.config hs
  rcases checkSource_cases hyields requireEnd with
    ⟨-, -, -, hclean⟩ | ⟨failure, hrefused, -, hfailure⟩
  · exact .inl (Outcome.code_of_none hclean)
  · exact .inr ((Outcome.code_of_some hfailure).trans (hrefused.code_eq hstop))

/-- The first line that is not passed is no text. -/
def MeetsNoText (c : MessageConfig) (octets : Bytes) : Prop :=
  ∃ line, ((linesOf octets).find? fun line => !(Line.of c line).isPassed) = some line ∧
    Text.ofBytes? line = none

/-- **Writing** the lines of it succeeds, or the data is wrong, unless the first line that is not
passed is no text. -/
theorem frameSource_code (shared : Shared) (input : Input) (hs : s.Readable octets) :
    (MeetsNoText shared.config octets ∧ (frameSource shared input s).code = internalCode) ∨
    (¬ MeetsNoText shared.config octets ∧
      ((frameSource shared input s).code = successCode ∨
        (frameSource shared input s).code = dataCode)) := by
  obtain ⟨before, rest, hlines, hbefore, -, hstop⟩ := frameSource_of_readable shared input hs
  have hnone : (before.find? fun line => !(Line.of shared.config line).isPassed) = none := by
    simpa using hbefore
  have hfind : ((linesOf octets).find? fun line => !(Line.of shared.config line).isPassed) =
      rest.find? fun line => !(Line.of shared.config line).isPassed := by
    rw [hlines, List.find?_append, hnone, Option.none_or]
  rcases hstop with ⟨rfl, hclean⟩ | ⟨line, after, failure, rfl, hsome, hfailure⟩
  · refine .inr ⟨fun ⟨line, hline, _⟩ => ?_, .inl (Outcome.code_of_none hclean)⟩
    rw [hfind] at hline
    cases hline
  · have hcode := Outcome.code_of_some hsome
    match hof : Line.of shared.config line with
    | .noText =>
      rw [hof] at hfailure
      cases hfailure
      refine .inl ⟨⟨line, hfind.trans ?_, Line.of_eq_noText_iff.1 hof⟩, hcode⟩
      exact List.find?_cons_of_pos (by rw [hof]; rfl)
    | .refused e =>
      rw [hof] at hfailure
      cases hfailure
      refine .inr ⟨fun ⟨found, hfound, hnoText⟩ => ?_,
        .inr (hcode.trans (Failure.code_ofMessage (Line.isContent_of_refused hof) _))⟩
      rw [hfind, List.find?_cons_of_pos (by rw [hof]; rfl)] at hfound
      cases hfound
      rw [Line.of_eq_noText hnoText] at hof
      cases hof
    | .blank | .message m =>
      rw [hof] at hfailure
      cases hfailure

/-- **Exit codes on an input that can be read**, whatever it holds. A command succeeds, or the data
is wrong; but where a command writes lines, and the first that is not passed is no text, the code is
that of an internal error. -/
theorem code_of_readable (i : Invocation) (s : Source) (octets : Bytes) (hs : s.Readable octets) :
    let outcome := i.run (.ok s)
    (outcome.code = internalCode ↔
      ∃ input, i.action = .frame input ∧ MeetsNoText i.shared.config octets) ∧
    (outcome.code ≠ internalCode → outcome.code = successCode ∨ outcome.code = dataCode) := by
  obtain ⟨shared, action⟩ := i
  have hother {code : Nat} (h : code = successCode ∨ code = dataCode) : code ≠ internalCode := by
    rcases h with rfl | rfl <;> decide
  cases action with
  | dump input count =>
    have hcode := dumpSource_code shared count hs
    exact ⟨iff_of_false (hother hcode) nofun, fun _ => hcode⟩
  | check input requireEnd =>
    have hcode := checkSource_code shared requireEnd hs
    exact ⟨iff_of_false (hother hcode) nofun, fun _ => hcode⟩
  | version extended => exact ⟨iff_of_false (hother (.inl rfl)) nofun, fun _ => .inl rfl⟩
  | frame input =>
    rcases frameSource_code shared input hs with ⟨hmeets, hcode⟩ | ⟨hmeets, hcode⟩
    · exact ⟨iff_of_true hcode ⟨input, rfl, hmeets⟩, fun hnot => absurd hcode hnot⟩
    · refine ⟨iff_of_false (hother hcode) ?_, fun _ => hcode⟩
      rintro ⟨-, -, h⟩
      exact hmeets h

/-- A message on its line, and an octet that is no character. -/
def strayOctet : Bytes := Text.bytes "\"EndOfFile\"\r\n" ++ [0xff, 0x0a]

/-- The line is taken for a failure of the input where lines are written, and is no message where a
stream of lines is printed. -/
theorem code_of_readable_strayOctet :
    (Source.ofBytes strayOctet).Readable strayOctet ∧
      (Invocation.run ⟨{}, .frame .stdin⟩ (.ok (.ofBytes strayOctet))).code = internalCode ∧
      (Invocation.run ⟨{ stream := .jsonLines }, .dump .stdin none⟩
        (.ok (.ofBytes strayOctet))).code = dataCode := by
  have hs := Source.readable_ofBytes strayOctet
  have hmeets : MeetsNoText ({} : Shared).config strayOctet := ⟨[0xff], by decide +kernel, by decide⟩
  refine ⟨hs, ?_, ?_⟩
  · exact (code_of_readable ⟨{}, .frame .stdin⟩ _ strayOctet hs).1.2 ⟨.stdin, rfl, hmeets⟩
  · obtain ⟨hiff, hother⟩ :=
      code_of_readable ⟨{ stream := .jsonLines }, .dump .stdin none⟩ _ strayOctet hs
    exact (hother (mt hiff.1 nofun)).resolve_left (by decide +kernel)

end WarcStream.Command
