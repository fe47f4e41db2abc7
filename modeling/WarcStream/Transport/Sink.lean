import WarcStream.Bytes
import WarcStream.Transport.Fault
/-!
# Sinks of octets

A sink is what a writer pushes to: scripts of what its write and flush calls
will answer, the octets it has taken, and the number of calls made so far. A
write may take a part of what it is offered, nothing at all, or fail; past the
script it takes everything. `writeAll` offers the rest again until all of it
is taken, makes a call again after an interruption or when the sink is full
for now, and takes a write of nothing for the end of the sink.
-/

namespace WarcStream.Transport

/-- What a sink answers to one write call. -/
inductive Acceptance where
  /-- At most this many octets are taken. -/
  | atMost (count : Nat)
  | fault (fault : Fault)
  deriving DecidableEq, Repr

/-- A sink. -/
structure Sink where
  /-- The answers to the write calls to come. -/
  acceptances : List Acceptance := []
  /-- The answers to the flush calls to come; none is a success. -/
  flushFaults : List (Option Fault) := []
  /-- The octets taken so far. -/
  taken : Bytes := []
  /-- The write calls made so far. -/
  writes : Nat := 0
  /-- The flush calls made so far. -/
  flushes : Nat := 0
  deriving Repr

/-- Why not everything was written. -/
inductive WriteFailure where
  /-- A write took nothing. -/
  | closed
  | fault (fault : Fault)
  deriving DecidableEq, Repr

namespace Sink

/-- One write call. -/
def write (s : Sink) (offered : Bytes) : Except Fault Nat × Sink :=
  match s.acceptances with
  | [] =>
    (.ok offered.length, { s with taken := s.taken ++ offered, writes := s.writes + 1 })
  | .fault f :: rest => (.error f, { s with acceptances := rest, writes := s.writes + 1 })
  | .atMost count :: rest =>
    (.ok (min count offered.length),
      { s with
        acceptances := rest
        taken := s.taken ++ offered.take count
        writes := s.writes + 1 })

/-- One flush call. -/
def flushOnce (s : Sink) : Except Fault Unit × Sink :=
  match s.flushFaults with
  | [] => (.ok (), { s with flushes := s.flushes + 1 })
  | none :: rest => (.ok (), { s with flushFaults := rest, flushes := s.flushes + 1 })
  | some f :: rest => (.error f, { s with flushFaults := rest, flushes := s.flushes + 1 })

/-- A write that fails uses up an answer. -/
theorem acceptances_lt_of_write_error {s next : Sink} {offered : Bytes} {f : Fault}
    (h : s.write offered = (.error f, next)) :
    next.acceptances.length < s.acceptances.length := by
  unfold write at h
  split at h
  · simp at h
  · rename_i hs
    obtain ⟨-, rfl⟩ := Prod.mk.inj h
    simp [hs]
  · simp at h

/-- A write that takes something leaves less to write or uses up an answer. -/
theorem remaining_lt_of_write_ok {s next : Sink} {offered : Bytes} {count : Nat}
    (h : s.write offered = (.ok count, next)) (hcount : count ≠ 0) :
    next.acceptances.length + (offered.drop count).length <
      s.acceptances.length + offered.length := by
  unfold write at h
  split at h
  · rename_i hs
    simp only [Prod.mk.injEq, Except.ok.injEq] at h
    obtain ⟨rfl, rfl⟩ := h
    simp [hs]
    omega
  · simp at h
  · rename_i hs
    simp only [Prod.mk.injEq, Except.ok.injEq] at h
    obtain ⟨rfl, rfl⟩ := h
    simp [hs]
    omega

/-- Writes all of `octets`. -/
def writeAll (s : Sink) (octets : Bytes) : Except WriteFailure Unit × Sink :=
  if octets.isEmpty then (.ok (), s)
  else
    match _h : s.write octets with
    | (.error f, next) => if f.isRetried then next.writeAll octets else (.error (.fault f), next)
    | (.ok count, next) =>
      if _hcount : count = 0 then (.error .closed, next) else next.writeAll (octets.drop count)
termination_by s.acceptances.length + octets.length
decreasing_by
  · exact Nat.add_lt_add_right (acceptances_lt_of_write_error _h) _
  · exact remaining_lt_of_write_ok _h _hcount

/-- A flush that fails uses up an answer. -/
theorem flushFaults_lt_of_flushOnce_error {s next : Sink} {f : Fault}
    (h : s.flushOnce = (.error f, next)) : next.flushFaults.length < s.flushFaults.length := by
  unfold flushOnce at h
  split at h
  · simp at h
  · simp at h
  · rename_i hs
    obtain ⟨-, rfl⟩ := Prod.mk.inj h
    simp [hs]

/-- Flushes, again after an interruption or when the sink is full for now. -/
def flush (s : Sink) : Except Fault Unit × Sink :=
  match _h : s.flushOnce with
  | (.ok (), next) => (.ok (), next)
  | (.error f, next) => if f.isRetried then next.flush else (.error f, next)
termination_by s.flushFaults.length
decreasing_by exact flushFaults_lt_of_flushOnce_error _h

end Sink

end WarcStream.Transport
