import WarcStream.Transport.Sink
/-!
# What a sink takes

Whatever a sink answers to the calls made on it, it has taken the octets
offered to it in their order: all of them, or those in front of the call that
failed for good. `Took` is what any number of write calls leave behind; it is
kept by one call (`write_cases`) and put together call by call. `written_writeAll`
and `flush_cases` are all that writing and flushing can come to.
-/

namespace WarcStream.Transport

namespace Sink

variable {s mid next : Sink} {octets part part' : Bytes} {used used' : List Acceptance}

/-- From the one sink to the other there were write calls only, which took these octets and used up
these answers. -/
structure Took (s next : Sink) (octets : Bytes) (used : List Acceptance) : Prop where
  taken_eq : next.taken = s.taken ++ octets
  acceptances_eq : s.acceptances = used ++ next.acceptances
  flushFaults_eq : next.flushFaults = s.flushFaults
  flushes_eq : next.flushes = s.flushes

theorem Took.refl (s : Sink) : s.Took s [] [] :=
  ⟨(List.append_nil _).symm, rfl, rfl, rfl⟩

theorem Took.trans (h : s.Took mid part used) (h' : mid.Took next part' used') :
    s.Took next (part ++ part') (used ++ used') where
  taken_eq := by rw [h'.taken_eq, h.taken_eq, List.append_assoc]
  acceptances_eq := by rw [h.acceptances_eq, h'.acceptances_eq, List.append_assoc]
  flushFaults_eq := by rw [h'.flushFaults_eq, h.flushFaults_eq]
  flushes_eq := by rw [h'.flushes_eq, h.flushes_eq]

/-- The answers that are left are the last of those there were. -/
theorem Took.acceptances_suffix (h : s.Took next octets used) :
    next.acceptances <:+ s.acceptances :=
  ⟨used, h.acceptances_eq.symm⟩

/-! ## Writing -/

/-- **All that one write can do**: it fails, it takes nothing, or it takes the first of what is
offered. It takes nothing just if its answer says so. -/
theorem write_cases (s : Sink) (hsome : octets ≠ []) :
    (∃ f next, s.write octets = (.error f, next) ∧ s.Took next [] [.fault f]) ∨
    (∃ next, s.write octets = (.ok 0, next) ∧ s.Took next [] [.atMost 0]) ∨
    ∃ count next used, s.write octets = (.ok count, next) ∧ count ≠ 0 ∧
      s.Took next (octets.take count) used ∧ .atMost 0 ∉ used := by
  have hlen := List.length_pos_iff.2 hsome
  obtain ⟨acceptances, flushFaults, taken, writes, flushes⟩ := s
  match acceptances with
  | [] =>
    refine .inr (.inr ⟨octets.length, _, [], rfl, by omega, ⟨?_, rfl, rfl, rfl⟩,
      List.not_mem_nil⟩)
    rw [List.take_length]
  | .fault f :: rest => exact .inl ⟨f, _, rfl, (List.append_nil _).symm, rfl, rfl, rfl⟩
  | .atMost count :: rest =>
    by_cases hcount : count = 0
    · subst hcount
      have hnone : min 0 octets.length = 0 := Nat.zero_min _
      refine .inr (.inl ⟨⟨rest, flushFaults, taken ++ [], writes + 1, flushes⟩, ?_, rfl, rfl, rfl,
        rfl⟩)
      simp only [write, hnone, List.take_zero]
    · refine .inr (.inr ⟨min count octets.length, _, [.atMost count], rfl, by omega,
        ⟨?_, rfl, rfl, rfl⟩, ?_⟩)
      · rw [← List.take_eq_take_min]
      · simpa [eq_comm] using hcount

/-- The equation of writing. -/
theorem writeAll_eq (hsome : octets ≠ []) :
    s.writeAll octets =
      match s.write octets with
      | (.error f, next) => if f.isRetried then next.writeAll octets else (.error (.fault f), next)
      | (.ok count, next) =>
        if count = 0 then (.error .closed, next) else next.writeAll (octets.drop count) := by
  rw [Sink.writeAll, if_neg (by simpa using hsome)]
  generalize s.write octets = answer
  obtain ⟨f | count, next⟩ := answer
  · rfl
  · rfl

/-- All that writing can come to. -/
inductive Written (s : Sink) (octets : Bytes) : Except WriteFailure Unit → Sink → Prop
  /-- All octets are taken. -/
  | all {next : Sink} {used : List Acceptance} :
      s.Took next octets used → .atMost 0 ∉ used → Written s octets (.ok ()) next
  /-- A write took nothing, and there are octets left. -/
  | closed {next : Sink} {part rest : Bytes} {used : List Acceptance} :
      octets = part ++ rest → rest ≠ [] → s.Took next part used → .atMost 0 ∈ used →
      Written s octets (.error .closed) next
  /-- A write failed for good, with the answer in front of those that are left, and there are octets
  left. -/
  | failed {next : Sink} {part rest : Bytes} {used : List Acceptance} {f : Fault} :
      octets = part ++ rest → rest ≠ [] → s.Took next part used → .atMost 0 ∉ used →
      .fault f :: next.acceptances <:+ s.acceptances → f.isRetried = false →
      Written s octets (.error (.fault f)) next

/-- What is written behind octets that were taken is written of all of them. -/
theorem Written.behind {answer : Except WriteFailure Unit} (h : mid.Written part' answer next)
    (htook : s.Took mid part used) (hused : .atMost 0 ∉ used) :
    s.Written (part ++ part') answer next := by
  cases h with
  | all htook' hused' =>
    refine .all (htook.trans htook') fun hmem => ?_
    rcases List.mem_append.1 hmem with hmem | hmem
    · exact hused hmem
    · exact hused' hmem
  | closed hsplit hrest htook' hused' =>
    refine .closed ?_ hrest (htook.trans htook') (List.mem_append_right _ hused')
    rw [hsplit, List.append_assoc]
  | failed hsplit hrest htook' hused' hfault hretried =>
    refine .failed ?_ hrest (htook.trans htook') (fun hmem => ?_)
      (hfault.trans htook.acceptances_suffix) hretried
    · rw [hsplit, List.append_assoc]
    · rcases List.mem_append.1 hmem with hmem | hmem
      · exact hused hmem
      · exact hused' hmem

/-- **What is written is taken in order**, up to the call that fails. -/
theorem written_writeAll (s : Sink) (octets : Bytes) :
    s.Written octets (s.writeAll octets).1 (s.writeAll octets).2 := by
  -- along the writes, each of which uses up an answer or leaves less to write
  induction hn : s.acceptances.length + octets.length using Nat.strongRecOn
    generalizing s octets with
  | _ n ih =>
    by_cases hnone : octets = []
    · subst hnone
      have hwrite : s.writeAll [] = (.ok (), s) := by rw [Sink.writeAll]; rfl
      rw [hwrite]
      exact .all (.refl s) List.not_mem_nil
    rw [writeAll_eq hnone]
    rcases s.write_cases hnone with ⟨f, next, hwrite, htook⟩ | ⟨next, hwrite, htook⟩ |
      ⟨count, next, used, hwrite, hcount, htook, hused⟩
    · simp only [hwrite]
      cases hretried : f.isRetried with
      | true =>
        have hless := acceptances_lt_of_write_error hwrite
        have hnext := ih (next.acceptances.length + octets.length) (by omega) next octets rfl
        exact hnext.behind htook (by simp)
      | false =>
        exact .failed (List.nil_append _).symm hnone htook (by simp)
          ⟨[], htook.acceptances_eq.symm⟩ hretried
    · simp only [hwrite]
      exact .closed (List.nil_append _).symm hnone htook List.mem_cons_self
    · have hless := remaining_lt_of_write_ok hwrite hcount
      have hnext := ih (next.acceptances.length + (octets.drop count).length) (by omega) next
        (octets.drop count) rfl
      have hall := hnext.behind htook hused
      rw [List.take_append_drop] at hall
      simpa only [hwrite, if_neg hcount] using hall

/-! ## Flushing -/

/-- From the one sink to the other there were flush calls only. They took nothing and used up no
answers but their own, in their order. -/
structure Waited (s next : Sink) : Prop where
  taken_eq : next.taken = s.taken
  acceptances_eq : next.acceptances = s.acceptances
  flushFaults_suffix : next.flushFaults <:+ s.flushFaults

theorem Waited.refl (s : Sink) : s.Waited s := ⟨rfl, rfl, List.suffix_refl _⟩

theorem Waited.trans (h : s.Waited mid) (h' : mid.Waited next) : s.Waited next where
  taken_eq := h'.taken_eq.trans h.taken_eq
  acceptances_eq := h'.acceptances_eq.trans h.acceptances_eq
  flushFaults_suffix := h'.flushFaults_suffix.trans h.flushFaults_suffix

theorem waited_flushOnce (s : Sink) : s.Waited s.flushOnce.2 := by
  unfold flushOnce
  split
  · exact ⟨rfl, rfl, List.suffix_refl _⟩
  · rename_i rest hs
    refine ⟨rfl, rfl, ?_⟩
    rw [hs]
    exact List.suffix_cons _ _
  · rename_i f rest hs
    refine ⟨rfl, rfl, ?_⟩
    rw [hs]
    exact List.suffix_cons _ _

/-- A flush fails as its script says. -/
theorem flushFaults_of_flushOnce_error {f : Fault} (h : s.flushOnce = (.error f, next)) :
    s.flushFaults = some f :: next.flushFaults := by
  unfold flushOnce at h
  split at h
  · cases h
  · cases h
  · rename_i hs
    cases h
    exact hs

/-- The equation of flushing. -/
theorem flush_eq (s : Sink) :
    s.flush =
      match s.flushOnce with
      | (.ok (), next) => (.ok (), next)
      | (.error f, next) => if f.isRetried then next.flush else (.error f, next) := by
  rw [Sink.flush]
  generalize s.flushOnce = answer
  obtain ⟨f | _, next⟩ := answer
  · rfl
  · rfl

/-- **All that flushing can come to**: there is a last call, which succeeds or fails for good, and
its answer stands. -/
theorem flush_cases (s : Sink) :
    ∃ last, s.Waited last ∧ s.flush = last.flushOnce ∧
      ∀ f, s.flush.1 = .error f → f.isRetried = false := by
  -- along the flushes, each of which uses up an answer
  induction hn : s.flushFaults.length using Nat.strongRecOn generalizing s with
  | _ n ih =>
    have hwaited := s.waited_flushOnce
    rw [flush_eq]
    match honce : s.flushOnce with
    | (.ok (), next) => exact ⟨s, .refl s, honce.symm, nofun⟩
    | (.error f, next) =>
      rw [honce] at hwaited
      by_cases hretried : f.isRetried = true
      · have hless := flushFaults_lt_of_flushOnce_error honce
        obtain ⟨last, hlast, hflush, hlasting⟩ := ih next.flushFaults.length (by omega) next rfl
        simp only [if_pos hretried]
        exact ⟨last, hwaited.trans hlast, hflush, hlasting⟩
      · simp only [if_neg hretried]
        refine ⟨s, .refl s, honce.symm, fun g hg => ?_⟩
        rw [← Except.error.inj hg]
        exact Bool.eq_false_iff.2 hretried

end Sink

end WarcStream.Transport
