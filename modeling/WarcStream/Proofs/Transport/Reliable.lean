import WarcStream.Proofs.Transport.Acceptance
/-!
# Sinks that never fail

A sink may take a part of what it is offered, and be interrupted or full for
now. As long as it does nothing worse, all that is written arrives in order
(`Reliable.writeAll`), and the sink stays as it is.
-/

namespace WarcStream.Transport

/-- A write takes something, or it is made again. -/
def Acceptance.IsReliable : Acceptance → Prop
  | .atMost count => 0 < count
  | .fault f => f.isRetried = true

namespace Sink

variable {s next : Sink} {octets part : Bytes} {used : List Acceptance}

/-- No call fails for good. -/
structure Reliable (s : Sink) : Prop where
  acceptances : ∀ a ∈ s.acceptances, a.IsReliable
  flushFaults : ∀ f, some f ∈ s.flushFaults → f.isRetried = true

theorem Reliable.isReliable (h : s.Reliable) (htook : s.Took next part used) :
    ∀ a ∈ used, a.IsReliable := by
  intro a ha
  refine h.acceptances a ?_
  rw [htook.acceptances_eq]
  exact List.mem_append_left _ ha

theorem Reliable.took (h : s.Reliable) (htook : s.Took next part used) : next.Reliable := by
  constructor
  · intro a ha
    refine h.acceptances a ?_
    rw [htook.acceptances_eq]
    exact List.mem_append_right _ ha
  · rw [htook.flushFaults_eq]
    exact h.flushFaults

theorem Reliable.waited (h : s.Reliable) (hwaited : s.Waited next) : next.Reliable := by
  constructor
  · rw [hwaited.acceptances_eq]
    exact h.acceptances
  · intro f hf
    exact h.flushFaults f (hwaited.flushFaults_suffix.subset hf)

/-- **All of it is written**, whatever parts the sink takes it in. -/
theorem Reliable.writeAll (h : s.Reliable) (octets : Bytes) :
    ∃ next, s.writeAll octets = (.ok (), next) ∧ next.taken = s.taken ++ octets ∧
      next.Reliable := by
  have hwritten := s.written_writeAll octets
  generalize s.writeAll octets = written at hwritten
  obtain ⟨answer, next⟩ := written
  dsimp only at hwritten
  cases hwritten with
  | all htook _ => exact ⟨next, rfl, htook.taken_eq, h.took htook⟩
  | closed _ _ htook hnothing =>
    have hpos : 0 < 0 := h.isReliable htook _ hnothing
    omega
  | @failed _ _ _ _ f _ _ htook _ hfault hlasting =>
    have hretried : f.isRetried = true := h.acceptances _ (hfault.subset List.mem_cons_self)
    rw [hlasting] at hretried
    cases hretried

/-- Flushing succeeds and takes nothing. -/
theorem Reliable.flush (h : s.Reliable) :
    ∃ next, s.flush = (.ok (), next) ∧ next.taken = s.taken ∧ next.Reliable := by
  obtain ⟨last, hwaited, hflush, hlasting⟩ := s.flush_cases
  have hnext := hwaited.trans last.waited_flushOnce
  rw [hflush] at hlasting ⊢
  match honce : last.flushOnce with
  | (.ok (), next) =>
    rw [honce] at hnext
    exact ⟨next, rfl, hnext.taken_eq, h.waited hnext⟩
  | (.error f, next) =>
    have hretried := (h.waited hwaited).flushFaults f
      (flushFaults_of_flushOnce_error honce ▸ List.mem_cons_self)
    rw [hlasting f (by rw [honce])] at hretried
    cases hretried

end Sink

end WarcStream.Transport
