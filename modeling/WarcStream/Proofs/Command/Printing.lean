import WarcStream.Command.Dump
import WarcStream.Proofs.Message.Stopping
/-!
# What is printed of a stream

The messages of a stream are printed up to a count, or up to where the reader
stops: `dumpSource_of_yields`. A format that writes each message at once comes to
what it writes of them, one behind the other (`finish_printAll_of_line`); in the
JSON format that is one text a line (`finish_printAll_json`).
-/

namespace WarcStream

open Transport

/-! ## The printer -/

namespace MessagePrinter

variable {p : MessagePrinter}

/-- The JSON texts of messages, one a line. -/
def jsonLines (ms : List Message) : Bytes :=
  ms.flatMap fun m => Json.print m.document ++ [Bytes.lineFeed]

/-- Where nothing is pending, what has been written is all. -/
theorem finish_of_pending (h : p.pending = 0) : p.finish = p.written.reverse.flatten := by
  rw [finish, writeTable, if_pos h]

/-- **Where a format writes each message at once**, the messages are written one behind the other,
each under its number. -/
theorem finish_printAll_of_line (line : Nat → Message → Bytes)
    (hline : ∀ q : MessagePrinter, q.format = p.format → ∀ m, q.print m =
      { q with printed := q.printed + 1, written := line q.printed m :: q.written })
    (hpending : p.pending = 0) (ms : List Message) :
    (p.printAll ms).finish = p.written.reverse.flatten ++
      (ms.zipIdx p.printed).flatMap fun (m, index) => line index m := by
  induction ms generalizing p with
  | nil => exact (finish_of_pending hpending).trans (List.append_nil _).symm
  | cons m ms ih =>
    rw [printAll, List.foldl_cons, hline p rfl]
    refine (ih (p := { p with
      printed := p.printed + 1
      written := line p.printed m :: p.written }) hline hpending).trans ?_
    rw [List.reverse_cons, List.flatten_append, List.flatten_singleton, List.append_assoc]
    rfl

/-- **In the JSON format** each message is a line, and nothing is left pending. -/
theorem finish_printAll_json (hformat : p.format = .json) (hpending : p.pending = 0)
    (ms : List Message) :
    (p.printAll ms).finish = p.written.reverse.flatten ++ jsonLines ms := by
  have hlines := finish_printAll_of_line (fun _ m => Json.print m.document ++ [Bytes.lineFeed])
    (fun q hq m => by rw [print, hq, hformat]) hpending ms
  have hjson : jsonLines ((ms.zipIdx p.printed).map Prod.fst) =
      (ms.zipIdx p.printed).flatMap fun (m, _) => Json.print m.document ++ [Bytes.lineFeed] :=
    List.flatMap_map ..
  rw [hlines, ← hjson, List.zipIdx_map_fst]

end MessagePrinter

namespace Command

variable {r next : MessageReader} {m : Message} {ms : List Message} {stop : Option MessageError}
variable {count : Option Nat}

/-! ## Taking messages -/

/-- The equation of taking messages. -/
theorem takeMessages_eq (r : MessageReader) (count : Option Nat) :
    takeMessages r count =
      if isWanted count then
        match r.next with
        | (.ok (some m), next) =>
          { takeMessages next (count.map (· - 1)) with
            messages := m :: (takeMessages next (count.map (· - 1))).messages
            events := r.nextEvents ++ (takeMessages next (count.map (· - 1))).events }
        | (.ok none, next) =>
          { messages := [], error := none, count := next.count, events := r.nextEvents }
        | (.error e, next) =>
          { messages := [], error := some e, count := next.count, events := r.nextEvents }
      else { messages := [], error := none, count := r.count, events := [] } := by
  rw [takeMessages]
  generalize r.next = answer
  obtain ⟨e | found, next⟩ := answer
  · rfl
  · cases found <;> rfl

theorem takeMessages_of_message (hwanted : isWanted count = true)
    (hnext : r.next = (.ok (some m), next)) :
    ∃ events, takeMessages r count =
      { takeMessages next (count.map (· - 1)) with
        messages := m :: (takeMessages next (count.map (· - 1))).messages
        events } := by
  rw [takeMessages_eq, if_pos hwanted, hnext]
  exact ⟨_, rfl⟩

theorem takeMessages_of_stop (hwanted : isWanted count = true)
    (hnext : r.next = (stop.elim (.ok none) .error, next)) :
    takeMessages r count = ⟨[], stop, next.count, r.nextEvents⟩ := by
  rw [takeMessages_eq, if_pos hwanted, hnext]
  cases stop <;> rfl

/-- The count is reached within so many messages. -/
def isReached (count : Option Nat) (length : Nat) : Bool := count.any (· ≤ length)

theorem isReached_succ (n length : Nat) :
    isReached (some (n + 1)) (length + 1) = isReached (some n) length := by
  simp [isReached]

/-- **What is taken from a reader**: the messages it yields, up to the count. Its error is met
unless the count is reached before. -/
theorem takeMessages_of_yields (h : r.Yields ms stop) (count : Option Nat) :
    ∃ events, takeMessages r count =
      { messages := ms.take (count.getD ms.length)
        error := if isReached count ms.length then none else stop
        count := r.count + (ms.take (count.getD ms.length)).length
        events } := by
  induction ms generalizing r count with
  | nil =>
    rw [List.take_nil]
    match count with
    | some 0 => exact ⟨[], by rw [takeMessages_eq]; rfl⟩
    | some (n + 1) | none =>
      obtain ⟨next, hnext, hcount⟩ := h.next_of_nil
      exact ⟨_, (takeMessages_of_stop rfl hnext).trans (by rw [hcount]; rfl)⟩
  | cons m ms ih =>
    obtain ⟨next, hnext, hrest⟩ := h.next_of_cons
    have hcount (n : Nat) : next.count + n = r.count + (n + 1) := by
      rw [MessageReader.count_of_message hnext]
      omega
    match count with
    | some 0 => exact ⟨[], by rw [takeMessages_eq]; rfl⟩
    | some (n + 1) =>
      have hwanted : isWanted (some (n + 1)) = true := rfl
      obtain ⟨events, htake⟩ := takeMessages_of_message hwanted hnext
      obtain ⟨later, hlater⟩ := ih hrest (some n)
      refine ⟨events, htake.trans ?_⟩
      rw [Option.map_some, Nat.add_sub_cancel, hlater, hcount, List.length_cons, isReached_succ,
        Option.getD_some, Option.getD_some, List.take_succ_cons, List.length_cons]
    | none =>
      have hwanted : isWanted none = true := rfl
      obtain ⟨events, htake⟩ := takeMessages_of_message hwanted hnext
      obtain ⟨later, hlater⟩ := ih hrest none
      refine ⟨events, htake.trans ?_⟩
      rw [Option.map_none, hlater, hcount, Option.getD_none, Option.getD_none, List.take_length,
        List.take_length]
      rfl

/-! ## The command -/

/-- **What is printed of a stream**: the messages its reader yields, up to the count, and a failure
where the reader's error is met before. -/
theorem dumpSource_of_yields {shared : Shared} {s : Source}
    (h : (MessageReader.ofConfig shared.config s).Yields ms stop) (count : Option Nat) :
    ∃ events, dumpSource shared count s =
      { output := ((MessagePrinter.printAll { format := shared.output }
          (ms.take (count.getD ms.length))).finish)
        events
        failure := if isReached count ms.length then none else stop.map fun e =>
          .ofMessage ("decode failed after " ++
            toString (ms.take (count.getD ms.length)).length ++ " messages") e } := by
  obtain ⟨events, htake⟩ := takeMessages_of_yields h count
  have hnone : (MessageReader.ofConfig shared.config s).count = 0 := rfl
  rw [hnone, Nat.zero_add] at htake
  rw [dumpSource, htake]
  cases hreached : isReached count ms.length with
  | true => exact ⟨_, rfl⟩
  | false => cases stop <;> exact ⟨_, rfl⟩

end Command

end WarcStream
