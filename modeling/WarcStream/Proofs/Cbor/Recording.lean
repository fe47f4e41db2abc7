import WarcStream.Proofs.Cbor.Requests
/-!
# What is recorded of an item

The octets of an item are kept while it is read, for the error that may come of it. A
`Recorder` keeps them, and refuses a read that would take it over its limit: so
whatever is read through it, it keeps no more than the limit allows
(`Within.of_reaches`). Reading an item is one read through a recorder after the other
(`reaches_pull`), and the buffer that they go through never holds more than its
capacity.
-/

namespace WarcStream

open Transport

namespace Transport.BufferedSource

variable {b : BufferedSource} {capacity : Nat}

/-- The buffer holds no more than it can. -/
structure Bounded (b : BufferedSource) (capacity : Nat) : Prop where
  capacity_eq : b.capacity = capacity
  length_le : b.buffer.length ≤ capacity

/-- Filling the buffer takes no more than it can hold, -/
theorem Bounded.fill (h : b.Bounded capacity) : b.fill.2.Bounded capacity := by
  obtain ⟨rfl, hlen⟩ := h
  unfold BufferedSource.fill
  split
  · split
    · rename_i octets source hread
      exact ⟨rfl, Source.length_read_le hread⟩
    · exact ⟨rfl, hlen⟩
  · exact ⟨rfl, hlen⟩

/-- one read through it leaves no more in it, -/
theorem Bounded.read (h : b.Bounded capacity) (room : Nat) : (b.read room).2.Bounded capacity := by
  have hfill := h.fill
  unfold BufferedSource.read
  split
  · exact ⟨h.capacity_eq, h.length_le⟩
  · split
    · rename_i filled hfilled
      rw [hfilled] at hfill
      refine ⟨hfill.capacity_eq, ?_⟩
      rw [List.length_drop]
      exact Nat.le_trans (Nat.sub_le _ _) hfill.length_le
    · rename_i f next hfailed
      rw [hfailed] at hfill
      exact hfill

/-- and neither does waiting for octets. -/
theorem Bounded.awaitOctets (h : b.Bounded capacity) : b.awaitOctets.2.Bounded capacity := by
  fun_induction BufferedSource.awaitOctets b with
  | case1 b filled hfill =>
    have hfilled := h.fill
    rwa [hfill] at hfilled
  | case2 b f next hfill hint ih =>
    have hnext := h.fill
    rw [hfill] at hnext
    exact ih hnext
  | case3 b f next hfill hint =>
    have hnext := h.fill
    rwa [hfill] at hnext

end Transport.BufferedSource

namespace Cbor

/-- A source that keeps what is read through it, up to a limit. -/
structure Recorder where
  limit : Nat
  seen : Bytes := []
  octets : BufferedSource

namespace Recorder

variable {r t u : Recorder} {capacity : Nat}

/-- One read. What it brings is kept, unless that is more than the limit allows. -/
def read (r : Recorder) (room : Nat) : Except Shortfall Bytes × Recorder :=
  match r.octets.read room with
  | (.error f, octets) => (.error (.fault f), { r with octets })
  | (.ok piece, octets) =>
    if r.limit < r.seen.length + piece.length then
      (.error (.excess (r.seen.length + piece.length)), { r with octets })
    else (.ok piece, { r with seen := r.seen ++ piece, octets })

/-- The recorder behind any reads, whatever came of them. -/
inductive Reaches (r : Recorder) : Recorder → Prop
  | refl : Reaches r r
  | read {t : Recorder} (room : Nat) : Reaches r t → Reaches r (t.read room).2

theorem Reaches.of_read {room : Nat} (h : (r.read room).2 = t) : r.Reaches t := by
  rw [← h]
  exact .read room .refl

theorem Reaches.trans (h : r.Reaches t) (h' : t.Reaches u) : r.Reaches u := by
  induction h' with
  | refl => exact h
  | read room _ ih => exact .read room ih

/-! ## The bound -/

/-- **The recorder is within its limit**, and so is the buffer that it reads through. -/
structure Within (r : Recorder) (limit capacity : Nat) : Prop where
  limit_eq : r.limit = limit
  length_le : r.seen.length ≤ limit
  octets : r.octets.Bounded capacity

/-- **One read** keeps it there, whatever comes of it, -/
theorem Within.read {limit : Nat} (h : r.Within limit capacity) (room : Nat) :
    (r.read room).2.Within limit capacity := by
  obtain ⟨rfl, hlen, hoctets⟩ := h
  have hnext := hoctets.read room
  unfold Recorder.read
  split
  · rename_i f octets hread
    rw [hread] at hnext
    exact ⟨rfl, hlen, hnext⟩
  · rename_i piece octets hread
    rw [hread] at hnext
    split
    · exact ⟨rfl, hlen, hnext⟩
    · rename_i hfits
      refine ⟨rfl, ?_, hnext⟩
      rw [List.length_append]
      exact Nat.not_lt.1 hfits

/-- and so do any reads. -/
theorem Within.of_reaches {limit : Nat} (h : r.Within limit capacity) (ht : r.Reaches t) :
    t.Within limit capacity := by
  induction ht with
  | refl => exact h
  | read room _ ih => exact ih.read room

/-! ## Reading an item -/

variable {b next : BufferedSource} {limit before count room : Nat} {seen piece : Bytes} {f : Fault}

theorem read_of_fault (h : b.read room = (.error f, next)) :
    (Recorder.read ⟨limit, seen, b⟩ room).2 = ⟨limit, seen, next⟩ := by
  simp only [Recorder.read, h]

/-- A read that brings nothing, or more than the limit allows, leaves nothing behind, -/
theorem read_of_refused (h : b.read room = (.ok piece, next))
    (hpiece : piece = [] ∨ limit < seen.length + piece.length) :
    (Recorder.read ⟨limit, seen, b⟩ room).2 = ⟨limit, seen, next⟩ := by
  simp only [Recorder.read, h]
  split
  · rfl
  · rename_i hfits
    obtain rfl | hlarge := hpiece
    · simp only [List.append_nil]
    · exact absurd hlarge hfits

/-- and what any other read brings is kept. -/
theorem read_of_octets (h : b.read room = (.ok piece, next))
    (hfits : ¬ limit < seen.length + piece.length) :
    (Recorder.read ⟨limit, seen, b⟩ room).2 = ⟨limit, seen ++ piece, next⟩ := by
  simp only [Recorder.read, h, if_neg hfits]

/-- **Octets are gathered** by reads through a recorder. -/
theorem reaches_gather (hbefore : before = seen.length) :
    Reaches ⟨limit, seen, b⟩
      ⟨limit, seen ++ (b.gather limit before count).1, (b.gather limit before count).2.2⟩ := by
  fun_induction BufferedSource.gather b limit before count generalizing seen with
  | case1 b before =>
    rw [List.append_nil]
    exact .refl
  | case2 b before count hcount f next hread hint ih =>
    exact (Reaches.of_read (read_of_fault hread)).trans (ih hbefore)
  | case3 b before count hcount f next hread hint =>
    rw [List.append_nil]
    exact .of_read (read_of_fault hread)
  | case4 b before count hcount next hread =>
    rw [List.append_nil]
    exact .of_read (read_of_refused hread (.inl rfl))
  | case5 b before count hcount piece next hread hsome hlarge =>
    rw [List.append_nil]
    exact .of_read (read_of_refused hread (.inr (hbefore ▸ hlarge)))
  | case6 b before count hcount piece next hread hsome hfits rest stop last hrest ih =>
    have hlen : before + piece.length = (seen ++ piece).length := by
      rw [hbefore, List.length_append]
    have hbehind := ih hlen
    rw [hrest, List.append_assoc] at hbehind
    exact (Reaches.of_read (read_of_octets hread (hbefore ▸ hfits))).trans hbehind

/-- **An item is read** through a recorder, which holds what has been taken of it. -/
theorem reaches_state_pull (s : State) (limit : Nat) (taken : Bytes) (b : BufferedSource)
    (hoffset : s.offset = taken.length) :
    Reaches ⟨limit, taken.reverse, b⟩
      ⟨limit, (s.pull limit taken b).2.1.reverse, (s.pull limit taken b).2.2⟩ := by
  have hgathered {s : State} {taken octets : Bytes} {b next : BufferedSource}
      {stop : Option Shortfall} (hoffset : s.offset = taken.length)
      (hgather : b.gather limit s.offset s.wanted = (octets, stop, next)) :
      Reaches ⟨limit, taken.reverse, b⟩ ⟨limit, (octets.reverseAux taken).reverse, next⟩ := by
    have hlen : s.offset = taken.reverse.length := by rw [hoffset, List.length_reverse]
    have hreads : Reaches ⟨limit, taken.reverse, b⟩
        ⟨limit, taken.reverse ++ (b.gather limit s.offset s.wanted).1,
          (b.gather limit s.offset s.wanted).2.2⟩ := reaches_gather hlen
    rw [hgather] at hreads
    simpa [List.reverseAux_eq] using hreads
  fun_induction State.pull s limit taken b with
  | case1 s taken b octets shortfall next hgather => exact hgathered hoffset hgather
  | case2 s taken b octets next hgather later htake ih =>
    have hcounted := at_take s octets later htake
    refine (hgathered hoffset hgather).trans (ih ?_)
    rw [hcounted, hoffset, List.reverseAux_eq, List.length_append, List.length_reverse,
      Nat.add_comm]
  | case3 s taken b octets next hgather v htake => exact hgathered hoffset hgather
  | case4 s taken b octets next hgather e htake => exact hgathered hoffset hgather

/-- A whole item. -/
theorem reaches_pull (limit : Nat) (b : BufferedSource) :
    Reaches ⟨limit, [], b⟩ ⟨limit, (pull limit b).2.1, (pull limit b).2.2⟩ :=
  reaches_state_pull State.start limit [] b rfl

end Recorder

end Cbor

end WarcStream
