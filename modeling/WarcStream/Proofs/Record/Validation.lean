import WarcStream.Proofs.Record.Observing
import WarcStream.Proofs.Record.Order
/-!
# What a validator accepts and reports

`SequenceState.Behind` says which messages of a record that is still open have
led to a state, and `Behind.of_accepts` what one that can follow makes of them.
A message is accepted just if a stream may go on with it
(`Holds.isOk_observe_iff`), and a validator holds the records that were closed
and the messages behind them, whatever it refused in between
(`Holds.observeAll`). `observeAll_order` puts these together.
-/

namespace WarcStream

variable {s : SequenceState} {m : Message} {ms tail : List Message} {records : List SentRecord}

namespace SequenceState

/-- The state behind these messages, which close no record. -/
inductive Behind : SequenceState → List Message → Prop
  /-- Locations, of which the last counts. -/
  | between (locations : List Metadata) :
      Behind (.between locations.getLast?) (locations.map .metadata)
  /-- A record up to some piece of its block. -/
  | inside (r : SentRecord) : Behind (.inside { r.summary with checksums := {} }) r.opening
  | finished : Behind .finished [.endOfFile]

/-- No record is closed by them. -/
theorem Behind.tag_ne (h : s.Behind tail) : ∀ m ∈ tail, m.tag ≠ .blockEnd := by
  intro m hm
  cases h with
  | between locations =>
    obtain ⟨location, -, rfl⟩ := List.mem_map.1 hm
    simp [Message.tag]
  | inside r =>
    simp only [SentRecord.opening, List.mem_append, List.mem_cons, List.mem_map] at hm
    rcases hm with ⟨location, -, rfl⟩ | rfl | ⟨data, -, rfl⟩ <;> simp [Message.tag]
  | finished =>
    obtain rfl := List.mem_singleton.1 hm
    simp [Message.tag]

/-- **A message that can follow** leaves the record open, or closes it with its summary. -/
theorem Behind.of_accepts {next : SequenceState} {closed : Option RecordSummary}
    (h : s.Behind tail) (haccepts : s.Accepts m next closed) :
    (closed = none ∧ next.Behind (tail ++ [m]) ∧ m.tag ≠ .blockEnd) ∨
    ∃ r : SentRecord, closed = some r.summary ∧ next = .between none ∧
      tail ++ [m] = r.messages ∧ m.tag = .blockEnd := by
  cases h with
  | between locations =>
    generalize hlast : locations.getLast? = announced at haccepts
    cases haccepts with
    | location announced location =>
      refine .inl ⟨rfl, ?_, by simp [Message.tag]⟩
      have hnext := Behind.between (locations ++ [location])
      rwa [List.getLast?_concat, List.map_append] at hnext
    | header announced header =>
      subst hlast
      exact .inl ⟨rfl, Behind.inside ⟨locations, header, [], {}⟩, by simp [Message.tag]⟩
    | endOfFile =>
      -- no location was sent, since its record would have to follow
      obtain rfl := List.getLast?_eq_none_iff.1 hlast
      exact .inl ⟨rfl, Behind.finished, by simp [Message.tag]⟩
  | inside r =>
    cases haccepts with
    | chunk record data =>
      have hnext := Behind.inside { r with chunks := r.chunks ++ [data] }
      refine .inl ⟨rfl, ?_, by simp [Message.tag]⟩
      simpa [SentRecord.summary, SentRecord.opening] using hnext
    | close record checksums => exact .inr ⟨{ r with checksums }, rfl, rfl, rfl, rfl⟩
  | finished => cases haccepts

/-! ## Messages that follow each other -/

/-- Nothing has been observed. -/
abbrev start : SequenceState := .between none

/-- The messages can follow, one after the other, and lead from one state to another. -/
inductive Leads : SequenceState → List Message → SequenceState → Prop
  /-- No message leads anywhere else. -/
  | nil (s : SequenceState) : Leads s [] s
  /-- A message that can follow, and the messages that can follow behind it. -/
  | cons {s next last : SequenceState} {m : Message} {ms : List Message}
      {closed : Option RecordSummary} (haccepts : s.Accepts m next closed)
      (hrest : Leads next ms last) : Leads s (m :: ms) last

theorem Accepts.leads {next : SequenceState} {closed : Option RecordSummary}
    (h : s.Accepts m next closed) : s.Leads [m] next :=
  .cons h (.nil next)

theorem Leads.append {next last : SequenceState} {xs ys : List Message} (h : s.Leads xs next)
    (h' : next.Leads ys last) : s.Leads (xs ++ ys) last := by
  induction h with
  | nil s => exact h'
  | cons haccepts hrest ih => exact .cons haccepts (ih h')

/-- The messages behind those that led to a state follow from there. -/
theorem Leads.of_append {next last : SequenceState} {xs ys : List Message} (h : s.Leads xs next)
    (h' : s.Leads (xs ++ ys) last) : next.Leads ys last := by
  induction h with
  | nil s => exact h'
  | cons haccepts hrest ih =>
    cases h' with
    | cons haccepts' hrest' =>
      obtain ⟨rfl, -⟩ := haccepts.unique haccepts'
      exact ih hrest'

/-- Messages lead to one state. -/
theorem Leads.unique {next last : SequenceState} (h : s.Leads ms next) (h' : s.Leads ms last) :
    next = last := by
  rw [← List.append_nil ms] at h'
  cases h.of_append h'
  rfl

theorem leads_locations (locations : List Metadata) :
    start.Leads (locations.map .metadata) (.between locations.getLast?) := by
  induction locations using List.reverseRecOn with
  | nil => exact .nil start
  | append_singleton locations location ih =>
    rw [List.map_append, List.getLast?_concat]
    exact ih.append (Accepts.location locations.getLast? location).leads

theorem leads_chunks (record : RecordSummary) (chunks : List Bytes) :
    (inside record).Leads (chunks.map .blockChunk)
      (.inside { record with
        chunkCount := record.chunkCount + chunks.length
        blockLength := record.blockLength + chunks.flatten.length }) := by
  induction chunks using List.reverseRecOn with
  | nil => exact .nil (inside record)
  | append_singleton chunks data ih =>
    have hlength : record.blockLength + (chunks ++ [data]).flatten.length =
        record.blockLength + chunks.flatten.length + data.length := by
      rw [List.flatten_append, List.flatten_singleton, List.length_append, Nat.add_assoc]
    rw [hlength, List.map_append, List.length_append]
    exact ih.append (Accepts.chunk _ data).leads

/-- The messages that a state is behind lead to it. -/
theorem Behind.leads (h : s.Behind tail) : start.Leads tail s := by
  cases h with
  | between locations => exact leads_locations locations
  | inside r =>
    have hheader : (SequenceState.between r.locations.getLast?).Leads [.header r.header]
        (.inside (SentRecord.summary ⟨r.locations, r.header, [], {}⟩)) :=
      (Accepts.header r.locations.getLast? r.header).leads
    have hopened := (leads_locations r.locations).append
      (hheader.append (leads_chunks _ r.chunks))
    simpa [SentRecord.summary, SentRecord.opening] using hopened
  | finished => exact Accepts.endOfFile.leads

theorem leads_records (records : List SentRecord) :
    start.Leads (records.flatMap SentRecord.messages) start := by
  induction records with
  | nil => exact .nil start
  | cons r records ih =>
    have hrecord : start.Leads r.messages start :=
      (Behind.inside r).leads.append (Accepts.close _ r.checksums).leads
    rw [List.flatMap_cons]
    exact hrecord.append ih

theorem Behind.leads_append (h : s.Behind tail) (records : List SentRecord) :
    start.Leads (records.flatMap SentRecord.messages ++ tail) s :=
  (leads_records records).append h.leads

/-- **Whole streams are accepted**, and may stop. -/
theorem exists_leads_of_mem_streamOrder (h : ms.map Message.tag ∈ streamOrder.matches') :
    ∃ s, start.Leads ms s ∧ s.finish = .ok () := by
  obtain ⟨records, tail, htail, rfl⟩ := tags_mem_streamOrder_iff.1 h
  rcases htail with rfl | rfl
  · exact ⟨.between none, (Behind.between []).leads_append records, rfl⟩
  · exact ⟨.finished, Behind.finished.leads_append records, rfl⟩

/-- A state in which the stream may stop is behind a whole stream. -/
theorem Behind.of_finish (h : s.Behind tail) (hfinish : s.finish = .ok ()) :
    tail = [] ∨ tail = [.endOfFile] := by
  cases h with
  | between locations =>
    cases hlast : locations.getLast? with
    | none =>
      obtain rfl := List.getLast?_eq_none_iff.1 hlast
      exact .inl rfl
    | some location => simp [hlast, finish] at hfinish
  | inside r => simp [finish] at hfinish
  | finished => exact .inr rfl

/-- **A stream may always go on**: with a header and the end of a block, with the end of the block,
or not at all. -/
theorem Behind.viable (h : s.Behind tail) (records : List SentRecord) :
    Viable ((records.flatMap SentRecord.messages ++ tail).map Message.tag) := by
  have hclose (r : SentRecord) (rest : List Message) (hrest : r.messages = tail ++ rest) :
      Viable ((records.flatMap SentRecord.messages ++ tail).map Message.tag) := by
    refine ⟨rest.map Message.tag, ?_⟩
    rw [← List.map_append, List.append_assoc, ← hrest]
    refine tags_mem_streamOrder_iff.2 ⟨records ++ [r], [], .inl rfl, ?_⟩
    simp [List.flatMap_append]
  cases h with
  | between locations =>
    refine hclose ⟨locations, ⟨"", []⟩, [], {}⟩ [.header ⟨"", []⟩, .blockEnd {}] ?_
    simp [SentRecord.messages, SentRecord.opening]
  | inside r => exact hclose r [.blockEnd r.checksums] rfl
  | finished =>
    refine ⟨[], ?_⟩
    rw [List.append_nil]
    exact tags_mem_streamOrder_iff.2 ⟨records, [.endOfFile], .inr rfl, rfl⟩

end SequenceState

/-- The start of what a stream may start with. -/
theorem Viable.of_append {xs ys : List Tag} (h : Viable (xs ++ ys)) : Viable xs := by
  obtain ⟨rest, hrest⟩ := h
  exact ⟨ys ++ rest, by rwa [← List.append_assoc]⟩

namespace SequenceValidator

open SequenceState

variable {v : SequenceValidator}

/-- Observes messages one after the other, going on behind those that are refused. Each comes with
its answer. -/
def observeAll : SequenceValidator → List Message →
    List (Message × Except SequenceError (Option RecordSummary)) × SequenceValidator
  | v, [] => ([], v)
  | v, m :: ms =>
    let (answer, next) := v.observe m
    let (answers, last) := next.observeAll ms
    ((m, answer) :: answers, last)

/-- The messages that were accepted. -/
def accepted (answers : List (Message × Except SequenceError (Option RecordSummary))) :
    List Message :=
  (answers.filter fun answer => answer.2.isOk).map Prod.fst

/-- The summaries that were given. -/
def summaries (answers : List (Message × Except SequenceError (Option RecordSummary))) :
    List RecordSummary :=
  answers.filterMap fun answer => answer.2.toOption.join

/-- Nothing was refused. -/
def AllAccepted (answers : List (Message × Except SequenceError (Option RecordSummary))) : Prop :=
  ∀ answer ∈ answers, answer.2.isOk = true

/-- The validator has accepted the messages of these records, and behind them these messages of a
record that is still open. -/
structure Holds (v : SequenceValidator) (records : List SentRecord) (tail : List Message) :
    Prop where
  behind : v.state.Behind tail
  messages_eq : v.messages = (records.flatMap SentRecord.messages ++ tail).length
  records_eq : v.records = records.length

theorem holds_new : Holds {} [] [] := ⟨.between [], rfl, rfl⟩

/-- **All that one message can do**: it is accepted, it closes a record, or it is refused, with a
stream that cannot go on with it, and changes nothing. -/
theorem Holds.observe_cases (h : v.Holds records tail) (m : Message) :
    (∃ next, v.observe m = (.ok none, next) ∧ next.Holds records (tail ++ [m]) ∧
      m.tag ≠ .blockEnd) ∨
    (∃ r next, v.observe m = (.ok (some r.summary), next) ∧ tail ++ [m] = SentRecord.messages r ∧
      next.Holds (records ++ [r]) [] ∧ m.tag = .blockEnd) ∨
    (∃ e, v.observe m = (.error e, v) ∧
      ¬ Viable ((records.flatMap SentRecord.messages ++ tail ++ [m]).map Message.tag)) := by
  obtain ⟨hbehind, hmessages, hrecords⟩ := h
  rcases v.observe_cases m with ⟨state, closed, haccepts, hobserve⟩ | ⟨e, hrefuses, hobserve⟩
  · rcases hbehind.of_accepts haccepts with
      ⟨rfl, hnext, htag⟩ | ⟨r, rfl, rfl, hlast, htag⟩
    · refine .inl ⟨_, hobserve, ⟨hnext, ?_, hrecords⟩, htag⟩
      simp [hmessages, Nat.add_assoc]
    · refine .inr (.inl ⟨r, _, hobserve, hlast, ⟨.between [], ?_, ?_⟩, htag⟩)
      · simp [hmessages, ← hlast, Nat.add_assoc]
      · simp [hrecords]
  · refine .inr (.inr ⟨e, hobserve, ?_⟩)
    -- in a whole stream that goes on with the message, it would follow
    rintro ⟨rest, hrest⟩
    obtain ⟨behind, rfl⟩ := exists_tags_eq rest
    rw [← List.map_append, List.append_assoc] at hrest
    obtain ⟨last, hleads, -⟩ := exists_leads_of_mem_streamOrder hrest
    cases (hbehind.leads_append records).of_append hleads with
    | cons haccepts _ => exact haccepts.not_refuses hrefuses

/-- The stream may stop at any record that is closed, and go on with what is held. -/
theorem Holds.viable (h : v.Holds records tail) :
    Viable ((records.flatMap SentRecord.messages ++ tail).map Message.tag) :=
  h.behind.viable records

/-- **A message is accepted** just if a stream may go on with it. -/
theorem Holds.isOk_observe_iff (h : v.Holds records tail) (m : Message) :
    (v.observe m).1.isOk = true ↔
      Viable ((records.flatMap SentRecord.messages ++ tail ++ [m]).map Message.tag) := by
  rcases h.observe_cases m with
    ⟨next, hobserve, hnext, -⟩ | ⟨r, next, hobserve, hlast, hnext, -⟩ | ⟨e, hobserve, hviable⟩
  · have hviable := hnext.viable
    rw [← List.append_assoc] at hviable
    simp only [hobserve, hviable, iff_true]
    rfl
  · have hviable := hnext.viable
    rw [List.flatMap_append, List.flatMap_singleton, ← hlast, List.append_nil,
      ← List.append_assoc] at hviable
    simp only [hobserve, hviable, iff_true]
    rfl
  · simp only [hobserve, hviable, iff_false]
    exact Bool.false_ne_true

/-- A stream may stop where a validator stands just if it is whole. -/
theorem Holds.finish_eq_ok_iff (h : v.Holds records tail) :
    v.finish = .ok () ↔
      (records.flatMap SentRecord.messages ++ tail).map Message.tag ∈ streamOrder.matches' := by
  constructor
  · intro hfinish
    exact tags_mem_streamOrder_iff.2 ⟨records, tail, h.behind.of_finish hfinish, rfl⟩
  · intro hwhole
    obtain ⟨last, hleads, hfinish⟩ := exists_leads_of_mem_streamOrder hwhole
    obtain rfl := (h.behind.leads_append records).unique hleads
    exact hfinish

/-! ## Any number of messages -/

/-- The answers come with the messages in their order. -/
theorem fst_observeAll (v : SequenceValidator) (ms : List Message) :
    (v.observeAll ms).1.map Prod.fst = ms := by
  induction ms generalizing v with
  | nil => rfl
  | cons m ms ih => exact congrArg (m :: ·) (ih _)

/-- No answer depends on the messages behind its own. -/
theorem observeAll_take (v : SequenceValidator) (ms : List Message) (n : Nat) :
    (v.observeAll (ms.take n)).1 = (v.observeAll ms).1.take n := by
  induction ms generalizing v n with
  | nil => simp [observeAll]
  | cons m ms ih =>
    cases n with
    | zero => rfl
    | succ n => exact congrArg ((m, (v.observe m).1) :: ·) (ih _ n)

/-- **Any number of messages**: those that are accepted are the messages of the records that are
closed, and what is behind them; and the summaries are those of these records. -/
theorem Holds.observeAll (h : v.Holds records tail) (ms : List Message) :
    ∃ (closed : List SentRecord) (behind : List Message),
      (v.observeAll ms).2.Holds (records ++ closed) behind ∧
      tail ++ accepted (v.observeAll ms).1 = closed.flatMap SentRecord.messages ++ behind ∧
      summaries (v.observeAll ms).1 = closed.map SentRecord.summary := by
  induction ms generalizing v records tail with
  | nil => exact ⟨[], tail, by rwa [List.append_nil], List.append_nil tail, rfl⟩
  | cons m ms ih =>
    rcases h.observe_cases m with
      ⟨next, hobserve, hnext, -⟩ | ⟨r, next, hobserve, hlast, hnext, -⟩ | ⟨e, hobserve, -⟩
    · obtain ⟨closed, behind, hholds, haccepted, hsummaries⟩ := ih hnext
      simp only [SequenceValidator.observeAll, hobserve]
      refine ⟨closed, behind, hholds, ?_, hsummaries⟩
      rw [← haccepted, List.append_assoc]
      rfl
    · obtain ⟨closed, behind, hholds, haccepted, hsummaries⟩ := ih hnext
      simp only [SequenceValidator.observeAll, hobserve]
      refine ⟨r :: closed, behind, ?_, ?_, ?_⟩
      · rwa [List.append_assoc] at hholds
      · rw [List.flatMap_cons, ← hlast, List.append_assoc, ← haccepted, List.append_assoc]
        rfl
      · rw [List.map_cons, ← hsummaries]
        rfl
    · obtain ⟨closed, behind, hholds, haccepted, hsummaries⟩ := ih h
      simp only [SequenceValidator.observeAll, hobserve]
      exact ⟨closed, behind, hholds, haccepted, hsummaries⟩

/-- Nothing is refused just if a stream may go on with all of it. -/
theorem Holds.allAccepted_iff (h : v.Holds records tail) (ms : List Message) :
    AllAccepted (v.observeAll ms).1 ↔
      Viable ((records.flatMap SentRecord.messages ++ tail ++ ms).map Message.tag) := by
  induction ms generalizing v records tail with
  | nil => simpa [AllAccepted, SequenceValidator.observeAll] using h.viable
  | cons m ms ih =>
    simp only [AllAccepted, SequenceValidator.observeAll, List.forall_mem_cons]
    rcases h.observe_cases m with
      ⟨next, hobserve, hnext, -⟩ | ⟨r, next, hobserve, hlast, hnext, -⟩ | ⟨e, hobserve, hviable⟩
    · have hrest := ih hnext
      rw [List.append_assoc, List.append_assoc, List.singleton_append, ← List.append_assoc] at hrest
      rw [hobserve, ← hrest]
      exact and_iff_right rfl
    · have hrest := ih hnext
      rw [List.flatMap_append, List.flatMap_singleton, ← hlast, List.append_nil,
        ← List.append_assoc, List.append_assoc, List.singleton_append] at hrest
      rw [hobserve, ← hrest]
      exact and_iff_right rfl
    · rw [hobserve]
      refine iff_of_false (fun hall => Bool.false_ne_true hall.1) fun hall => hviable ?_
      rw [List.append_cons, List.map_append] at hall
      exact hall.of_append

/-- A summary is given for the end of a block that is accepted, and for nothing else. -/
theorem Holds.isSome_summary_iff (h : v.Holds records tail) (ms : List Message) :
    ∀ answer ∈ (v.observeAll ms).1,
      (∃ summary, answer.2 = .ok (some summary)) ↔
        answer.2.isOk = true ∧ answer.1.tag = .blockEnd := by
  induction ms generalizing v records tail with
  | nil => simp [SequenceValidator.observeAll]
  | cons m ms ih =>
    simp only [SequenceValidator.observeAll, List.forall_mem_cons]
    rcases h.observe_cases m with
      ⟨next, hobserve, hnext, htag⟩ | ⟨r, next, hobserve, -, hnext, htag⟩ | ⟨e, hobserve, -⟩
    · rw [hobserve]
      exact ⟨by simp [htag], ih hnext⟩
    · rw [hobserve]
      exact ⟨by simp [htag, Except.isOk, Except.toBool], ih hnext⟩
    · rw [hobserve]
      exact ⟨by simp [Except.isOk, Except.toBool], ih h⟩

/-- The first message that is refused: those before it are accepted, and with it they are not. -/
theorem findIdx?_refused_iff
    {answers : List (Message × Except SequenceError (Option RecordSummary))} {i : Nat} :
    (answers.findIdx? fun answer => !answer.2.isOk) = some i ↔
      AllAccepted (answers.take i) ∧ ¬ AllAccepted (answers.take (i + 1)) := by
  rw [List.findIdx?_eq_some_iff_getElem]
  constructor
  · rintro ⟨hi, hrefused, hbefore⟩
    refine ⟨fun answer hanswer => ?_, fun hall => ?_⟩
    · obtain ⟨j, hj, rfl⟩ := List.mem_take_iff_getElem.1 hanswer
      simpa using hbefore j (by omega)
    · have haccepted := hall answers[i] (List.mem_take_iff_getElem.2 ⟨i, by omega, rfl⟩)
      simp [haccepted] at hrefused
  · rintro ⟨hbefore, hnot⟩
    have hi : i < answers.length := by
      by_contra hle
      rw [List.take_of_length_le (by omega)] at hbefore hnot
      exact hnot hbefore
    refine ⟨hi, ?_, fun j hj => ?_⟩
    · by_contra hrefused
      refine hnot fun answer hanswer => ?_
      obtain ⟨j, hj, rfl⟩ := List.mem_take_iff_getElem.1 hanswer
      rcases Nat.lt_or_ge j i with hlt | hge
      · exact hbefore _ (List.mem_take_iff_getElem.2 ⟨j, by omega, rfl⟩)
      · obtain rfl : i = j := by omega
        simpa using hrefused
    · simpa using hbefore _ (List.mem_take_iff_getElem.2 ⟨j, by omega, rfl⟩)

/-- **A new validator keeps the order of a stream.** Nothing is refused just if a stream may start
with the tags of the messages, and the stream may then stop just if they are those of a whole
stream; what is refused first is the first message with which no stream goes on. The messages that
are accepted are those of the records that are closed, and behind them some of a record that is
open; the summaries are those of the closed records, in their order, and each is given for the end
of a block. The messages accepted and the records closed are counted. -/
theorem observeAll_order (ms : List Message) :
    let answers := (SequenceValidator.observeAll {} ms).1
    let last := (SequenceValidator.observeAll {} ms).2
    answers.map Prod.fst = ms ∧
    (AllAccepted answers ↔ Viable (ms.map Message.tag)) ∧
    (AllAccepted answers ∧ last.finish = .ok () ↔ ms.map Message.tag ∈ streamOrder.matches') ∧
    (∀ i, (answers.findIdx? fun answer => !answer.2.isOk) = some i ↔
      Viable ((ms.take i).map Message.tag) ∧ ¬ Viable ((ms.take (i + 1)).map Message.tag)) ∧
    (∀ answer ∈ answers, (∃ summary, answer.2 = .ok (some summary)) ↔
      answer.2.isOk = true ∧ answer.1.tag = .blockEnd) ∧
    ∃ (records : List SentRecord) (behind : List Message),
      accepted answers = records.flatMap SentRecord.messages ++ behind ∧
      (∀ m ∈ behind, m.tag ≠ .blockEnd) ∧
      summaries answers = records.map SentRecord.summary ∧
      last.messages = (accepted answers).length ∧
      last.records = records.length := by
  intro answers last
  have hviable (xs : List Message) :
      AllAccepted (SequenceValidator.observeAll {} xs).1 ↔ Viable (xs.map Message.tag) := by
    simpa using holds_new.allAccepted_iff xs
  obtain ⟨records, behind, hholds, haccepted, hsummaries⟩ := holds_new.observeAll ms
  rw [List.nil_append] at hholds haccepted
  have hfst : answers.map Prod.fst = ms := fst_observeAll {} ms
  refine ⟨hfst, hviable ms, ?_, fun i => ?_, holds_new.isSome_summary_iff ms, records, behind,
    haccepted, hholds.behind.tag_ne, hsummaries, ?_, hholds.records_eq⟩
  · -- where nothing is refused, the messages are those that are held
    have hfinish (hall : AllAccepted answers) :
        last.finish = .ok () ↔ ms.map Message.tag ∈ streamOrder.matches' := by
      have hkept : accepted answers = ms := by
        rw [accepted, List.filter_eq_self.2 hall, hfst]
      have hstop := hholds.finish_eq_ok_iff
      rwa [← haccepted, hkept] at hstop
    constructor
    · rintro ⟨hall, hstop⟩
      exact (hfinish hall).1 hstop
    · intro hwhole
      have hall : AllAccepted answers := by
        refine (hviable ms).2 ⟨[], ?_⟩
        rwa [List.append_nil]
      exact ⟨hall, (hfinish hall).2 hwhole⟩
  · rw [findIdx?_refused_iff, ← observeAll_take, ← observeAll_take, hviable, hviable]
  · rw [haccepted]
    exact hholds.messages_eq

end SequenceValidator

end WarcStream
