import WarcStream.Transport.Buffered
import Mathlib.Data.List.TakeWhile
/-!
# What a source delivers

A source may cut its octets anywhere and be interrupted anywhere. `live` are
the deliveries before the stream ends, `Delivers` says that nothing but cuts
and interruptions stand between a source and its octets. `Source.read_cases` is
all that one read of any source can do, and `Delivers.read_cases` all that it
can do of such a source.
-/

namespace WarcStream.Transport

namespace Delivery

/-- The octets of a delivery. -/
def octets : Delivery → Bytes
  | .data octets => octets
  | .fault _ => []

/-- The fault that a delivery is reported as. An interruption is not reported. -/
def failure? : Delivery → Option Fault
  | .data _ => none
  | .fault f => if f.isInterruption then none else some f

/-- A delivery of octets, or an interruption. -/
def IsQuiet : Delivery → Prop
  | .data octets => octets ≠ []
  | .fault f => f.isInterruption = true

end Delivery

/-- The octets of a script. -/
def octetsOf (script : List Delivery) : Bytes := script.flatMap Delivery.octets

/-- The faults of a script that are reported. -/
def failuresOf (script : List Delivery) : List Fault := script.filterMap Delivery.failure?

section Script

variable {octets : Bytes} {f : Fault} {rest : List Delivery}

@[simp] theorem octetsOf_nil : octetsOf [] = [] := rfl

@[simp] theorem octetsOf_data : octetsOf (.data octets :: rest) = octets ++ octetsOf rest := rfl

@[simp] theorem octetsOf_fault : octetsOf (.fault f :: rest) = octetsOf rest := rfl

@[simp] theorem failuresOf_nil : failuresOf [] = [] := rfl

@[simp] theorem failuresOf_data : failuresOf (.data octets :: rest) = failuresOf rest := rfl

theorem failuresOf_of_interruption (h : f.isInterruption = true) :
    failuresOf (.fault f :: rest) = failuresOf rest := by
  rw [failuresOf, List.filterMap_cons, Delivery.failure?, if_pos h]
  rfl

theorem failuresOf_of_failure (h : ¬ f.isInterruption = true) :
    failuresOf (.fault f :: rest) = f :: failuresOf rest := by
  rw [failuresOf, List.filterMap_cons, Delivery.failure?, if_neg h]
  rfl

end Script

namespace Source

variable {s next : Source} {room : Nat} {octets xs : Bytes} {f : Fault}

/-- The deliveries before the end of the stream. An empty delivery is such an end. -/
def live (s : Source) : List Delivery := s.script.takeWhile fun d => d ≠ .data []

/-- The source delivers these octets and ends, with nothing but interruptions in between. -/
structure Delivers (s : Source) (octets : Bytes) : Prop where
  quiet : ∀ d ∈ s.script, d.IsQuiet
  octetsOf_eq : octetsOf s.script = octets

/-- A source that delivers octets in one piece. -/
theorem delivers_ofBytes (h : octets ≠ []) : (ofBytes octets).Delivers octets := by
  constructor
  · simpa [ofBytes, Delivery.IsQuiet] using h
  · simp [ofBytes, octetsOf, Delivery.octets]

/-- Such a source does not end before all of its octets. -/
theorem Delivers.live_eq (h : s.Delivers octets) : s.live = s.script := by
  refine List.takeWhile_eq_self_iff.2 fun d hd => ?_
  have hquiet := h.quiet d hd
  match d with
  | .data octets =>
    have hne : octets ≠ [] := hquiet
    simpa using hne
  | .fault f => simp

/-- A source that can be read to its end: it delivers these octets, or it has none and is at its end
from the start. -/
def Readable (s : Source) (octets : Bytes) : Prop :=
  s.Delivers octets ∨ s.live = [] ∧ octets = []

/-- An input of any octets can be read, also of none. -/
theorem readable_ofBytes (octets : Bytes) : (ofBytes octets).Readable octets := by
  by_cases h : octets = []
  · subst h
    exact .inr ⟨rfl, rfl⟩
  · exact .inl (delivers_ofBytes h)

/-- Nothing but its octets and interruptions stand before its end. -/
theorem Readable.live_eq (h : s.Readable octets) :
    octetsOf s.live = octets ∧ ∀ d ∈ s.live, d.IsQuiet := by
  rcases h with h | ⟨hlive, rfl⟩
  · rw [h.live_eq]
    exact ⟨h.octetsOf_eq, h.quiet⟩
  · rw [hlive]
    exact ⟨rfl, by simp⟩

/-! ### One read -/

/-- A read with room for octets meets the end behind the script, or at an empty delivery. -/
theorem script_of_end (hroom : 0 < room) (h : s.read room = (.ok [], next)) :
    s.script = [] ∧ next.script = [] ∨ s.script = .data [] :: next.script := by
  unfold read at h
  split at h
  · rename_i hs
    cases h
    exact .inl ⟨hs, hs⟩
  · cases h
  · rename_i data rest hs
    split at h
    · cases h
      exact .inr hs
    · rename_i hlen
      have htake : data.take room = [] := Except.ok.inj (Prod.mk.inj h).1
      have hnone := congrArg List.length htake
      rw [List.length_take, List.length_nil] at hnone
      omega

/-- A read that brings octets takes a delivery, or the first octets of one. -/
theorem script_of_octets (h : s.read room = (.ok octets, next)) (hsome : octets ≠ []) :
    s.script = .data octets :: next.script ∨
      ∃ more rest, more ≠ [] ∧ s.script = .data (octets ++ more) :: rest ∧
        next.script = .data more :: rest := by
  unfold read at h
  split at h
  · cases h
    exact absurd rfl hsome
  · cases h
  · rename_i data rest hs
    split at h
    · cases h
      exact .inl hs
    · rename_i hlen
      cases h
      refine .inr ⟨data.drop room, rest, ?_, ?_, rfl⟩
      · rw [← List.length_pos_iff, List.length_drop]
        omega
      · rw [hs, List.take_append_drop]

/-- A read that fails takes the fault. -/
theorem script_of_fault (h : s.read room = (.error f, next)) :
    s.script = .fault f :: next.script := by
  unfold read at h
  split at h
  · cases h
  · rename_i hs
    cases h
    exact hs
  · split at h <;> cases h

theorem live_of_cons {d : Delivery} {rest : List Delivery} (h : s.script = d :: rest)
    (hd : d ≠ .data []) : s.live = d :: rest.takeWhile fun d => d ≠ .data [] := by
  rw [live, h]
  exact List.takeWhile_cons_of_pos (by simpa using hd)

/-- **All that one read can do**: it meets the end of the stream or a fault, or it brings the next
octets, all of a delivery or the first of it. -/
theorem read_cases (s : Source) (hroom : 0 < room) :
    (s.live = [] ∧ ∃ next, s.read room = (.ok [], next)) ∨
    (∃ f next, s.read room = (.error f, next) ∧ s.live = .fault f :: next.live) ∨
    (∃ piece next, s.read room = (.ok piece, next) ∧ piece ≠ [] ∧
      (s.live = .data piece :: next.live ∨
        ∃ more rest, s.live = .data (piece ++ more) :: rest ∧ next.live = .data more :: rest)) := by
  match hread : s.read room with
  | (.ok [], next) =>
    refine .inl ⟨?_, next, rfl⟩
    rcases script_of_end hroom hread with ⟨hs, -⟩ | hs
    · rw [live, hs]
      rfl
    · rw [live, hs]
      exact List.takeWhile_cons_of_neg (by simp)
  | (.error f, next) =>
    exact .inr (.inl ⟨f, next, rfl, live_of_cons (script_of_fault hread) (by simp)⟩)
  | (.ok (x :: xs), next) =>
    have hsome : x :: xs ≠ [] := List.cons_ne_nil x xs
    refine .inr (.inr ⟨x :: xs, next, rfl, hsome, ?_⟩)
    rcases script_of_octets hread hsome with hs | ⟨more, rest, hmore, hs, hnext⟩
    · exact .inl (live_of_cons hs (by simp))
    · exact .inr ⟨more, _, live_of_cons hs (by simp), live_of_cons hnext (by simpa using hmore)⟩

/-- What a read brings is the first of what is delivered, and the rest is delivered behind it. -/
theorem Delivers.of_octets (hs : s.Delivers octets) (h : s.read room = (.ok xs, next))
    (hsome : xs ≠ []) : ∃ rest, octets = xs ++ rest ∧ next.Delivers rest := by
  obtain ⟨hquiet, rfl⟩ := hs
  rcases script_of_octets h hsome with hscript | ⟨more, rest, hmore, hscript, hnext⟩
  · rw [hscript] at hquiet ⊢
    exact ⟨octetsOf next.script, rfl, fun d hd => hquiet d (List.mem_cons_of_mem _ hd), rfl⟩
  · rw [hscript] at hquiet ⊢
    refine ⟨more ++ octetsOf rest, ?_, fun d hd => ?_, by rw [hnext]; rfl⟩
    · rw [octetsOf_data, List.append_assoc]
    · rw [hnext] at hd
      rcases List.mem_cons.1 hd with rfl | hd
      · exact hmore
      · exact hquiet d (List.mem_cons_of_mem _ hd)

/-- A fault can only be an interruption there. -/
theorem Delivers.of_fault (hs : s.Delivers octets) (h : s.read room = (.error f, next)) :
    f.isInterruption = true ∧ next.Delivers octets := by
  obtain ⟨hquiet, rfl⟩ := hs
  have hscript := script_of_fault h
  rw [hscript] at hquiet ⊢
  exact ⟨hquiet _ List.mem_cons_self, fun d hd => hquiet d (List.mem_cons_of_mem _ hd), rfl⟩

/-- The end comes behind all that is delivered. -/
theorem Delivers.of_end (hs : s.Delivers octets) (hroom : 0 < room)
    (h : s.read room = (.ok [], next)) : octets = [] ∧ next.Delivers [] := by
  obtain ⟨hquiet, rfl⟩ := hs
  rcases script_of_end hroom h with ⟨hscript, hnext⟩ | hscript
  · rw [hscript]
    exact ⟨rfl, by simp [hnext], by rw [hnext]; rfl⟩
  · rw [hscript] at hquiet
    exact absurd rfl (hquiet _ List.mem_cons_self)

/-- **All that one read can do** where nothing but interruptions comes in between: it is
interrupted, it meets the end, or it brings the next octets. -/
theorem Delivers.read_cases (h : s.Delivers octets) (hroom : 0 < room) :
    (∃ f next, s.read room = (.error f, next) ∧ f.isInterruption = true ∧ next.Delivers octets) ∨
    (octets = [] ∧ ∃ next, s.read room = (.ok [], next) ∧ next.Delivers []) ∨
    (∃ piece rest next, s.read room = (.ok piece, next) ∧ piece ≠ [] ∧
      octets = piece ++ rest ∧ next.Delivers rest) := by
  match hread : s.read room with
  | (.error f, next) => exact .inl ⟨f, next, rfl, h.of_fault hread⟩
  | (.ok [], next) =>
    obtain ⟨hnone, hnext⟩ := h.of_end hroom hread
    exact .inr (.inl ⟨hnone, next, rfl, hnext⟩)
  | (.ok (x :: xs), next) =>
    have hsome : x :: xs ≠ [] := List.cons_ne_nil x xs
    obtain ⟨rest, hrest, hnext⟩ := h.of_octets hread hsome
    exact .inr (.inr ⟨x :: xs, rest, next, rfl, hsome, hrest, hnext⟩)

end Source

namespace BufferedSource

variable {octets : Bytes}

/-- What the buffer holds and what the source delivers behind it are these octets. -/
structure Delivers (b : BufferedSource) (octets : Bytes) : Prop where
  capacity_pos : 0 < b.capacity
  source_delivers : ∃ rest, octets = b.buffer ++ rest ∧ b.source.Delivers rest

theorem delivers_of_source {s : Source} {capacity : Nat} (hcap : 0 < capacity)
    (h : s.Delivers octets) :
    (BufferedSource.mk capacity [] s).Delivers octets :=
  ⟨hcap, octets, rfl, h⟩

end BufferedSource

end WarcStream.Transport
