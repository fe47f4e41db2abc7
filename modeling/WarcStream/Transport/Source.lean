import WarcStream.Bytes
import WarcStream.Transport.Fault
/-!
# Sources of octets

A source is what a reader pulls from: a script of deliveries still to come and
the number of read calls made so far. A delivery is given out over as many
reads as the reader's buffer needs and is never joined with the next one; an
empty delivery is an end of stream seen by one read; past the script every
read is at the end. `weight` bounds the reads that can still make a
difference, and every such read lowers it (`read_weight_lt`).
-/

namespace WarcStream.Transport

/-- What a source has in store for the reads to come. -/
inductive Delivery where
  /-- Octets. None at all are an end of stream seen by one read. -/
  | data (octets : Bytes)
  /-- One read that fails. -/
  | fault (fault : Fault)
  deriving DecidableEq, Repr

/-- What a delivery weighs: its octets and one more. -/
def Delivery.weight : Delivery → Nat
  | .data octets => octets.length + 1
  | .fault _ => 1

/-- A source. -/
structure Source where
  /-- The deliveries still to come. -/
  script : List Delivery
  /-- The read calls made so far. -/
  reads : Nat := 0
  deriving Repr

namespace Source

/-- A source that delivers these octets and ends. -/
def ofBytes (octets : Bytes) : Source := ⟨[.data octets], 0⟩

/-- A bound on the reads that still make a difference. -/
def weight (s : Source) : Nat := s.script.foldr (fun d rest => d.weight + rest) 0

/-- One read call with room for `room` octets. No octets are the end of the stream. -/
def read (s : Source) (room : Nat) : Except Fault Bytes × Source :=
  match s.script with
  | [] => (.ok [], { s with reads := s.reads + 1 })
  | .fault f :: rest => (.error f, ⟨rest, s.reads + 1⟩)
  | .data octets :: rest =>
    if octets.length ≤ room then (.ok octets, ⟨rest, s.reads + 1⟩)
    else (.ok (octets.take room), ⟨.data (octets.drop room) :: rest, s.reads + 1⟩)

/-- The octets not yet delivered. -/
def unread (s : Source) : Bytes :=
  s.script.flatMap fun
    | .data octets => octets
    | .fault _ => []

/-- A read that fails lowers the weight. -/
theorem read_weight_lt_of_error {s next : Source} {room : Nat} {f : Fault}
    (h : s.read room = (.error f, next)) : next.weight < s.weight := by
  unfold read at h
  split at h
  · simp at h
  · rename_i g rest hs
    obtain ⟨-, rfl⟩ := Prod.mk.inj h
    simp [weight, hs, Delivery.weight]
  · split at h <;> simp at h

/-- A read never raises the weight. -/
theorem read_weight_le (s : Source) (room : Nat) :
    (s.read room).2.weight ≤ s.weight := by
  unfold read
  split
  · exact Nat.le_refl _
  · rename_i g rest hs
    simp [weight, hs]
  · rename_i octets rest hs
    split
    · simp [weight, hs]
    · simp [weight, hs, Delivery.weight]

/-- A read that delivers lowers the weight at least by what it delivers. -/
theorem read_weight_add_le {s next : Source} {room : Nat} {octets : Bytes}
    (h : s.read room = (.ok octets, next)) : next.weight + octets.length ≤ s.weight := by
  unfold read at h
  split at h
  · rename_i hs
    simp only [Prod.mk.injEq, Except.ok.injEq] at h
    obtain ⟨rfl, rfl⟩ := h
    simp [weight, hs]
  · simp at h
  · rename_i all rest hs
    split at h
    · simp only [Prod.mk.injEq, Except.ok.injEq] at h
      obtain ⟨rfl, rfl⟩ := h
      simp [hs, weight, Delivery.weight]
      omega
    · simp only [Prod.mk.injEq, Except.ok.injEq] at h
      obtain ⟨rfl, rfl⟩ := h
      simp [hs, weight, Delivery.weight]
      omega

/-- A read delivers no more than there is room for. -/
theorem length_read_le {s next : Source} {room : Nat} {octets : Bytes}
    (h : s.read room = (.ok octets, next)) : octets.length ≤ room := by
  unfold read at h
  split at h
  · simp only [Prod.mk.injEq, Except.ok.injEq] at h
    simp [← h.1]
  · simp at h
  · split at h
    · rename_i hroom
      simp only [Prod.mk.injEq, Except.ok.injEq] at h
      rwa [← h.1]
    · simp only [Prod.mk.injEq, Except.ok.injEq] at h
      rw [← h.1, List.length_take]
      exact Nat.min_le_left _ _

/-- A read that delivers octets lowers the weight. -/
theorem read_weight_lt_of_ok {s next : Source} {room : Nat} {octets : Bytes}
    (h : s.read room = (.ok octets, next)) (hsome : octets ≠ []) : next.weight < s.weight := by
  have := read_weight_add_le h
  have hpos : 0 < octets.length := List.length_pos_iff.2 hsome
  omega

end Source

end WarcStream.Transport
