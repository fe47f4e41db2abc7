import WarcStream.Transport.Source
/-!
# Buffered sources

A buffered source asks its source for as many octets as its buffer holds and
hands them out in smaller parts. It asks only when the buffer is empty, and a
request that is at least as large as the buffer then goes past it. `stock`
bounds what is still to come, and whatever is handed out lowers it.
-/

namespace WarcStream.Transport

/-- A source with a buffer in front of it. -/
structure BufferedSource where
  /-- Octets that the buffer holds. -/
  capacity : Nat
  /-- Octets that were read and not yet handed out. -/
  buffer : Bytes := []
  source : Source
  deriving Repr

/-- Why fewer octets came than were asked for. -/
inductive Shortfall where
  /-- The stream ended. -/
  | ended
  | fault (fault : Fault)
  /-- This many octets would be more than is allowed. -/
  | excess (size : Nat)
  deriving DecidableEq, Repr

namespace BufferedSource

/-- A bound on what is still to come. -/
def stock (b : BufferedSource) : Nat := b.buffer.length + b.source.weight

/-- Sees to it that octets are at hand. -/
def fill (b : BufferedSource) : Except Fault Unit × BufferedSource :=
  if b.buffer.isEmpty then
    match b.source.read b.capacity with
    | (.ok octets, source) => (.ok (), { b with buffer := octets, source })
    | (.error f, source) => (.error f, { b with source })
  else (.ok (), b)

/-- One read with room for `room` octets. No octets are the end of the stream. -/
def read (b : BufferedSource) (room : Nat) : Except Fault Bytes × BufferedSource :=
  if b.buffer.isEmpty && b.capacity ≤ room then
    let (answer, source) := b.source.read room
    (answer, { b with source })
  else
    match b.fill with
    | (.ok (), filled) =>
      (.ok (filled.buffer.take room), { filled with buffer := filled.buffer.drop room })
    | (.error f, next) => (.error f, next)

/-- Filling never adds to the stock. -/
theorem stock_fill_le {b next : BufferedSource} (h : b.fill = (.ok (), next)) :
    next.stock ≤ b.stock := by
  unfold fill at h
  split at h
  · split at h
    · rename_i octets source hread
      have := Source.read_weight_add_le hread
      simp only [Prod.mk.injEq, true_and] at h
      subst h
      simp only [stock]
      omega
    · simp at h
  · simp only [Prod.mk.injEq, true_and] at h
    subst h
    exact Nat.le_refl _

/-- Filling that fails lowers the stock. -/
theorem stock_fill_lt {b next : BufferedSource} {f : Fault} (h : b.fill = (.error f, next)) :
    next.stock < b.stock := by
  unfold fill at h
  split at h
  · split at h
    · simp at h
    · rename_i g source hread
      have := Source.read_weight_lt_of_error hread
      simp only [Prod.mk.injEq] at h
      obtain ⟨-, rfl⟩ := h
      simp only [stock]
      omega
  · simp at h

/-- A read lowers the stock at least by what it hands out. -/
theorem stock_read_add_le {b next : BufferedSource} {room : Nat} {octets : Bytes}
    (h : b.read room = (.ok octets, next)) : next.stock + octets.length ≤ b.stock := by
  unfold read at h
  split at h
  · simp only [Prod.mk.injEq] at h
    obtain ⟨hread, rfl⟩ := h
    have : (b.source.read room).2.weight + octets.length ≤ b.source.weight :=
      Source.read_weight_add_le (Prod.ext hread rfl)
    simp only [stock]
    omega
  · split at h
    · rename_i filled hfill
      have := stock_fill_le hfill
      simp only [Prod.mk.injEq, Except.ok.injEq] at h
      obtain ⟨rfl, rfl⟩ := h
      simp only [stock, List.length_take, List.length_drop] at this ⊢
      omega
    · simp at h

/-- A read hands out no more than there is room for. -/
theorem length_read_le {b next : BufferedSource} {room : Nat} {octets : Bytes}
    (h : b.read room = (.ok octets, next)) : octets.length ≤ room := by
  unfold read at h
  split at h
  · simp only [Prod.mk.injEq] at h
    exact Source.length_read_le (Prod.ext h.1 rfl)
  · split at h
    · simp only [Prod.mk.injEq, Except.ok.injEq] at h
      rw [← h.1, List.length_take]
      exact Nat.min_le_left _ _
    · simp at h

/-- A read that fails lowers the stock. -/
theorem stock_read_lt {b next : BufferedSource} {room : Nat} {f : Fault}
    (h : b.read room = (.error f, next)) : next.stock < b.stock := by
  unfold read at h
  split at h
  · simp only [Prod.mk.injEq] at h
    obtain ⟨hread, rfl⟩ := h
    have : (b.source.read room).2.weight < b.source.weight :=
      Source.read_weight_lt_of_error (Prod.ext hread rfl)
    simp only [stock]
    omega
  · split at h
    · simp at h
    · rename_i g filled hfill
      have := stock_fill_lt hfill
      simp only [Prod.mk.injEq] at h
      obtain ⟨-, rfl⟩ := h
      exact this

/-- Sees to it that octets are at hand, and says whether there are any. An interruption is not
reported. -/
def awaitOctets (b : BufferedSource) : Except Fault Bool × BufferedSource :=
  match _h : b.fill with
  | (.ok (), filled) => (.ok (!filled.buffer.isEmpty), filled)
  | (.error f, next) => if f.isInterruption then next.awaitOctets else (.error f, next)
termination_by b.stock
decreasing_by exact stock_fill_lt _h

/-- Waiting for octets never adds to the stock. -/
theorem stock_awaitOctets_le (b : BufferedSource) : b.awaitOctets.2.stock ≤ b.stock := by
  fun_induction awaitOctets b with
  | case1 b filled h => exact stock_fill_le h
  | case2 b f next h _ ih => exact Nat.le_trans ih (Nat.le_of_lt (stock_fill_lt h))
  | case3 b f next h _ => exact Nat.le_of_lt (stock_fill_lt h)

/-- Reads `count` octets, as long as they and the `before` octets before them are within the
limit. The octets come with whatever kept more from coming. -/
def gather (b : BufferedSource) (limit before count : Nat) :
    Bytes × Option Shortfall × BufferedSource :=
  if count = 0 then ([], none, b)
  else
    match _h : b.read count with
    | (.error f, next) =>
      if f.isInterruption then next.gather limit before count else ([], some (.fault f), next)
    | (.ok octets, next) =>
      if _hnone : octets = [] then ([], some .ended, next)
      else if limit < before + octets.length then
        ([], some (.excess (before + octets.length)), next)
      else
        let (rest, stop, last) :=
          next.gather limit (before + octets.length) (count - octets.length)
        (octets ++ rest, stop, last)
termination_by b.stock
decreasing_by
  · exact stock_read_lt _h
  · have := stock_read_add_le _h
    have := List.length_pos_iff.2 _hnone
    omega

/-- Octets that came all lower the stock by their number. -/
theorem stock_gather_add_le (b : BufferedSource) (limit before count : Nat)
    (h : (b.gather limit before count).2.1 = none) :
    (b.gather limit before count).2.2.stock + count ≤ b.stock := by
  -- along the reads: each lowers the stock by what it adds to the octets gathered
  fun_induction gather b limit before count with
  | case1 => simp
  | case2 b before count hcount f next hread hint ih =>
    have := stock_read_lt hread
    have := ih h
    omega
  | case3 => simp at h
  | case4 => simp at h
  | case5 => simp at h
  | case6 b before count hcount octets next hread hsome hlimit rest stop last hrest ih =>
    have := stock_read_add_le hread
    have := length_read_le hread
    have := ih (by rw [hrest]; exact h)
    simp only [hrest] at this ⊢
    omega

end BufferedSource

end WarcStream.Transport
