import WarcStream.Command.Outcome
import WarcStream.Message.Reader
/-!
# Printing a stream

The messages of a stream are printed in their order, up to a count or up to
the first error; what was read before an error is printed all the same.
Nothing is read past the last message that is printed.
-/

namespace WarcStream.Command

open Transport

/-- Messages that were taken from a reader. -/
structure Taken where
  messages : List Message
  /-- The error that ended the stream. -/
  error : Option MessageError
  /-- The messages that the reader has handed out in all. -/
  count : Nat
  events : List Log.Event
  deriving Repr

/-- A message is left to be taken. -/
def isWanted : Option Nat → Bool
  | some 0 => false
  | _ => true

/-- Takes messages from a reader, at most `count` of them. -/
def takeMessages (r : MessageReader) (count : Option Nat) : Taken :=
  if isWanted count then
    match _h : r.next with
    | (.ok (some m), next) =>
      let rest := takeMessages next (count.map (· - 1))
      { rest with messages := m :: rest.messages, events := r.nextEvents ++ rest.events }
    | (.ok none, next) =>
      { messages := [], error := none, count := next.count, events := r.nextEvents }
    | (.error e, next) =>
      { messages := [], error := some e, count := next.count, events := r.nextEvents }
  else { messages := [], error := none, count := r.count, events := [] }
termination_by r.remaining
decreasing_by exact MessageReader.remaining_next_lt _h

/-- Prints the messages of a stream. -/
def dumpSource (shared : Shared) (count : Option Nat) (source : Source) : Outcome :=
  let taken := takeMessages (.ofConfig shared.config source) count
  let printer : MessagePrinter := { format := shared.output }
  let output := (printer.printAll taken.messages).finish
  match taken.error with
  | some e =>
    let context := "decode failed after " ++ toString taken.count ++ " messages"
    { output, events := taken.events, failure := some (.ofMessage context e) }
  | none =>
    { output
      events := taken.events ++
        [{ severity := .debug, target := "warcseq::cmd::dump", message := "dump complete"
           details := [("messages", .number taken.count)] }] }

/-- Prints the messages of an input. -/
def dump (shared : Shared) (input : Input) (count : Option Nat) (opened : Except Fault Source) :
    Outcome :=
  match opened with
  | .error f => .unopened input f
  | .ok source => dumpSource shared count source

end WarcStream.Command
