import WarcStream.Cbor.Parser
import WarcStream.Transport.Buffered
/-!
# Reading CBOR from a source

The parser's requests are met from a buffered source, octet for octet, so
nothing behind the item is taken. The octets taken are kept, and taking more
than the limit allows ends the item.
-/

namespace WarcStream.Cbor

open Transport

/-- What comes of reading an item from a source. -/
inductive Arrival where
  | done (v : Value)
  | failed (e : Error)
  /-- The source failed. -/
  | fault (fault : Fault)
  /-- The item has at least this many octets, more than allowed. -/
  | excess (size : Nat)
  deriving Repr

/-- What a shortfall means in the middle of an item. -/
def Arrival.ofShortfall : Shortfall → Arrival
  | .ended => .failed .truncated
  | .fault f => if f.kind = .unexpectedEnd then .failed .truncated else .fault f
  | .excess size => .excess size

/-- Reads an item. The octets taken of it, newest first, come with the outcome. -/
def State.pull (s : State) (limit : Nat) (taken : Bytes) (b : BufferedSource) :
    Arrival × Bytes × BufferedSource :=
  match _h : b.gather limit s.offset s.wanted with
  | (octets, some shortfall, next) => (.ofShortfall shortfall, octets.reverseAux taken, next)
  | (octets, none, next) =>
    match s.take octets with
    | .more later => later.pull limit (octets.reverseAux taken) next
    | .done v => (.done v, octets.reverseAux taken, next)
    | .failed e => (.failed e, octets.reverseAux taken, next)
termination_by b.stock
decreasing_by
  have := b.stock_gather_add_le limit s.offset s.wanted (by rw [_h])
  simp only [_h] at this
  simp only [State.wanted] at this
  omega

/-- An item that was read lowers the stock of the source. -/
theorem State.stock_pull_lt {s : State} {limit : Nat} {taken : Bytes} {b : BufferedSource}
    {v : Value} (h : (s.pull limit taken b).1 = .done v) :
    (s.pull limit taken b).2.2.stock < b.stock := by
  fun_induction State.pull s limit taken b with
  | case1 s taken b octets shortfall next hgather =>
    cases shortfall <;> simp only [Arrival.ofShortfall] at h
    · exact absurd h (by simp)
    · split at h <;> exact absurd h (by simp)
    · exact absurd h (by simp)
  | case2 s taken b octets next hgather next' htake ih =>
    have := b.stock_gather_add_le limit s.offset s.wanted (by rw [hgather])
    simp only [hgather] at this
    have := ih h
    omega
  | case3 s taken b octets next hgather w htake =>
    have := b.stock_gather_add_le limit s.offset s.wanted (by rw [hgather])
    simp only [hgather] at this
    simp only [State.wanted] at this ⊢
    omega
  | case4 => simp at h

/-- Reads one item, and gives the octets taken of it. -/
def pull (limit : Nat) (b : BufferedSource) : Arrival × Bytes × BufferedSource :=
  let (arrival, taken, next) := State.start.pull limit [] b
  (arrival, taken.reverse, next)

/-- An item that was read lowers the stock of the source. -/
theorem stock_pull_lt {limit : Nat} {b : BufferedSource} {v : Value}
    (h : (pull limit b).1 = .done v) : (pull limit b).2.2.stock < b.stock := by
  have hstart : (State.start.pull limit [] b).1 = .done v := h
  exact State.stock_pull_lt hstart

end WarcStream.Cbor
