import WarcStream.Proofs.Record.Validation
/-!
# What a validator refuses

A message that is refused leaves no trace (`observe_eq_error_iff`): neither the
record that is open nor a count is touched. So a run over any messages comes to
the same as the run over those of them that are accepted
(`observeAll_accepted`): these alone lead to the state in the end
(`leads_accepted`), and the counts are those of what was accepted and of what
was closed (`counts_observeAll`).
-/

namespace WarcStream

namespace SequenceValidator

variable {v next : SequenceValidator} {m : Message} {e : SequenceError}

/-- A run goes on behind a message that is refused as if it had not come. -/
theorem observeAll_cons_of_error (h : v.observe m = (.error e, next)) (ms : List Message) :
    v.observeAll (m :: ms) = ((m, .error e) :: (v.observeAll ms).1, (v.observeAll ms).2) := by
  obtain ⟨-, rfl⟩ := observe_eq_error_iff.1 h
  simp only [observeAll, h]

theorem observeAll_cons_of_ok {closed : Option RecordSummary} (h : v.observe m = (.ok closed, next))
    (ms : List Message) :
    v.observeAll (m :: ms) =
      ((m, .ok closed) :: (next.observeAll ms).1, (next.observeAll ms).2) := by
  simp only [observeAll, h]

/-- **A run over the accepted messages alone** gives the answers that they had among the others, and
leaves the same validator behind. -/
theorem observeAll_accepted (v : SequenceValidator) (ms : List Message) :
    v.observeAll (accepted (v.observeAll ms).1) =
      ((v.observeAll ms).1.filter fun answer => answer.2.isOk, (v.observeAll ms).2) := by
  induction ms generalizing v with
  | nil => rfl
  | cons m ms ih =>
    rcases hobserve : v.observe m with ⟨e | closed, next⟩
    · rw [observeAll_cons_of_error hobserve]
      exact ih v
    · have hrest : accepted ((m, .ok closed) :: (next.observeAll ms).1) =
          m :: accepted (next.observeAll ms).1 := rfl
      rw [observeAll_cons_of_ok hobserve, hrest, observeAll_cons_of_ok hobserve, ih next]
      rfl

theorem summaries_filter
    (answers : List (Message × Except SequenceError (Option RecordSummary))) :
    summaries (answers.filter fun answer => answer.2.isOk) = summaries answers := by
  induction answers with
  | nil => rfl
  | cons answer answers ih =>
    obtain ⟨m, e | closed⟩ := answer
    · exact ih
    · have hkept : ((m, Except.ok closed) :: answers).filter (fun answer => answer.2.isOk) =
          (m, .ok closed) :: answers.filter fun answer => answer.2.isOk := rfl
      cases closed with
      | none => exact ih
      | some record => exact congrArg (record :: ·) ih

/-- The counts are those of what was accepted and closed. -/
theorem counts_observeAll (v : SequenceValidator) (ms : List Message) :
    (v.observeAll ms).2.messages = v.messages + (accepted (v.observeAll ms).1).length ∧
      (v.observeAll ms).2.records = v.records + (summaries (v.observeAll ms).1).length := by
  induction ms generalizing v with
  | nil => exact ⟨rfl, rfl⟩
  | cons m ms ih =>
    rcases hobserve : v.observe m with ⟨e | closed, next⟩
    · rw [observeAll_cons_of_error hobserve]
      exact ih v
    · obtain ⟨-, hmessages, hrecords⟩ := observe_eq_ok_iff.1 hobserve
      obtain ⟨hmore, hclosed⟩ := ih next
      rw [observeAll_cons_of_ok hobserve]
      constructor
      · have haccepted : accepted ((m, .ok closed) :: (next.observeAll ms).1) =
            m :: accepted (next.observeAll ms).1 := rfl
        rw [haccepted, List.length_cons, hmore, hmessages]
        omega
      · have hsummaries : summaries ((m, .ok closed) :: (next.observeAll ms).1) =
            closed.toList ++ summaries (next.observeAll ms).1 := by
          cases closed <;> rfl
        rw [hsummaries, List.length_append, hclosed, hrecords]
        omega

/-- The messages that are accepted follow each other, from where the validator was to where it is
in the end. -/
theorem leads_accepted (v : SequenceValidator) (ms : List Message) :
    v.state.Leads (accepted (v.observeAll ms).1) (v.observeAll ms).2.state := by
  induction ms generalizing v with
  | nil => exact .nil v.state
  | cons m ms ih =>
    rcases hobserve : v.observe m with ⟨e | closed, next⟩
    · rw [observeAll_cons_of_error hobserve]
      exact ih v
    · obtain ⟨haccepts, -, -⟩ := observe_eq_ok_iff.1 hobserve
      rw [observeAll_cons_of_ok hobserve]
      exact .cons haccepts (ih next)

/-- **What is refused changes nothing.** A validator, wherever it is in a stream, refuses the
messages that are out of order there and is then what it was, though it gives its state away to
judge a message: the record that is open with what has been received of it, whether the file has
ended, and both counts. So for any messages, observing all of them and ignoring the errors comes to
the same as observing those that are accepted: none of these is refused now, each has the answer
that it had, the summaries are the same in the same order, and the validator is the same in the end,
so that the stream may stop there or may not. The accepted messages alone lead to its state, and its
counts have grown by them and by the summaries that were given. -/
theorem refused_changes_nothing :
    (∀ (v : SequenceValidator) (m : Message) (e : SequenceError) (next : SequenceValidator),
      v.observe m = (.error e, next) ↔ v.state.Refuses m e ∧ next = v) ∧
    ∀ (v : SequenceValidator) (ms : List Message),
      let all := v.observeAll ms
      let kept := v.observeAll (accepted all.1)
      all.1.map Prod.fst = ms ∧ AllAccepted kept.1 ∧
      kept.1 = (all.1.filter fun answer => answer.2.isOk) ∧
      summaries kept.1 = summaries all.1 ∧ kept.2 = all.2 ∧
      v.state.Leads (accepted all.1) all.2.state ∧
      all.2.messages = v.messages + (accepted all.1).length ∧
      all.2.records = v.records + (summaries all.1).length := by
  refine ⟨fun v m e next => observe_eq_error_iff, fun v ms => ?_⟩
  intro all kept
  have hkept : kept = (all.1.filter fun answer => answer.2.isOk, all.2) := observeAll_accepted v ms
  obtain ⟨hmessages, hrecords⟩ := counts_observeAll v ms
  rw [hkept]
  refine ⟨fst_observeAll v ms, fun answer hanswer => ?_, rfl, summaries_filter all.1, rfl,
    leads_accepted v ms, hmessages, hrecords⟩
  exact (List.mem_filter.1 hanswer).2

end SequenceValidator

end WarcStream
