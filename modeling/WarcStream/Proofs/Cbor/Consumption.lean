import WarcStream.Proofs.Cbor.Requests
/-!
# What the parser takes of a stream

`State.front` are the octets that the parser takes of its input, up to the item's
end, to what is wrong with it, or to the end of the input. What comes behind them
makes no difference (`State.run_append`), and an item that is still unfinished
takes all there is, and of a longer input no less (`State.length_le_front`).
-/

namespace WarcStream.Cbor

variable {s : State} {input octets later more : Bytes}

/-- The octets that the parser takes of its input. -/
def State.front (s : State) (input : Bytes) : Bytes :=
  if _h : input.length < s.wanted then input
  else
    input.take s.wanted ++
      match s.take (input.take s.wanted) with
      | .more next => next.front (input.drop s.wanted)
      | .done _ | .failed _ => []
termination_by input.length
decreasing_by
  simp only [List.length_drop, State.wanted] at _h ⊢
  omega

/-! ## Request by request -/

theorem State.run_of_short (h : input.length < s.wanted) : s.run input = (.unfinished, input) := by
  rw [run, dif_pos]
  rw [List.length_take]
  omega

theorem State.front_of_short (h : input.length < s.wanted) : s.front input = input := by
  rw [front, dif_pos h]

@[simp] theorem State.run_nil (s : State) : s.run [] = (.unfinished, []) :=
  run_of_short (Nat.succ_pos s.wantedBefore)

@[simp] theorem State.front_nil (s : State) : s.front [] = [] :=
  front_of_short (Nat.succ_pos s.wantedBefore)

theorem State.run_of_request (h : octets.length = s.wanted) (later : Bytes) :
    s.run (octets ++ later) =
      match s.take octets with
      | .more next => next.run later
      | .done v => (.done v, later)
      | .failed e => (.failed e, later) := by
  have htake : (octets ++ later).take s.wanted = octets := by rw [← h, List.take_left]
  have hdrop : (octets ++ later).drop s.wanted = later := by rw [← h, List.drop_left]
  have hall : ¬ ((octets ++ later).take s.wanted).length < s.wanted := by
    rw [htake, h]
    exact Nat.lt_irrefl _
  rw [run, dif_neg hall]
  cases hprogress : s.take octets with
  | more | done | failed => simp only [htake, hdrop, hprogress]

theorem State.front_of_request (h : octets.length = s.wanted) (later : Bytes) :
    s.front (octets ++ later) = octets ++
      match s.take octets with
      | .more next => next.front later
      | .done _ | .failed _ => [] := by
  have hall : ¬ (octets ++ later).length < s.wanted := by
    rw [List.length_append]
    omega
  rw [front, dif_neg hall]
  simp only [← h, List.take_left, List.drop_left]

/-- Induction along the requests that the input can meet. -/
theorem State.request_induction {P : State → Bytes → Prop}
    (short : ∀ s input, input.length < State.wanted s → P s input)
    (met : ∀ s octets later, octets.length = State.wanted s →
      (∀ next, s.take octets = .more next → P next later) → P s (octets ++ later))
    (s : State) (input : Bytes) : P s input := by
  induction hn : input.length using Nat.strongRecOn generalizing s input with
  | _ n ih =>
    by_cases hshort : input.length < s.wanted
    · exact short s input hshort
    · have hlen : (input.take s.wanted).length = s.wanted := by
        rw [List.length_take]
        omega
      have hmet := met s (input.take s.wanted) (input.drop s.wanted) hlen fun next _ => by
        refine ih _ ?_ next _ rfl
        rw [List.length_drop]
        have hpos : 0 < s.wanted := Nat.succ_pos _
        omega
      rwa [List.take_append_drop] at hmet

/-- The parser takes all of its input, or comes to an outcome in front of what is left. -/
theorem State.run_cases (s : State) (input : Bytes) :
    (s.run input).1 = .unfinished ∧ s.front input = input ∨
      (s.run input).1 ≠ .unfinished ∧ s.front input ++ (s.run input).2 = input := by
  induction s, input using State.request_induction with
  | short s input h =>
    rw [run_of_short h, front_of_short h]
    exact .inl ⟨rfl, rfl⟩
  | met s octets later h ih =>
    rw [run_of_request h, front_of_request h]
    cases htake : s.take octets with
    | more next => simpa using ih next htake
    | done v => simp
    | failed e => simp

theorem State.front_prefix (s : State) (input : Bytes) : s.front input <+: input := by
  rcases s.run_cases input with ⟨-, hall⟩ | ⟨-, hsplit⟩
  · exact ⟨[], by rw [hall, List.append_nil]⟩
  · exact ⟨_, hsplit⟩

/-- The parser takes at least one octet, if there is one. -/
theorem State.front_ne_nil (s : State) (h : input ≠ []) : s.front input ≠ [] := by
  induction s, input using State.request_induction with
  | short s input hshort => rwa [front_of_short hshort]
  | met s octets later hlen =>
    have hpos : 0 < octets.length := hlen ▸ Nat.succ_pos _
    rw [front_of_request hlen]
    exact List.append_ne_nil_of_left_ne_nil (List.length_pos_iff.1 hpos) _

/-- **What comes behind makes no difference** to an outcome. -/
theorem State.run_append (more : Bytes) (h : (s.run input).1 ≠ .unfinished) :
    s.run (input ++ more) = ((s.run input).1, (s.run input).2 ++ more) ∧
      s.front (input ++ more) = s.front input := by
  induction s, input using State.request_induction with
  | short s input hshort =>
    rw [run_of_short hshort] at h
    exact absurd rfl h
  | met s octets later hlen ih =>
    rw [run_of_request hlen] at h
    rw [List.append_assoc, run_of_request hlen, run_of_request hlen, front_of_request hlen,
      front_of_request hlen]
    cases htake : s.take octets with
    | more next =>
      rw [htake] at h
      obtain ⟨hrun, hfront⟩ := ih next htake h
      exact ⟨hrun, by simp only [hfront]⟩
    | done v => exact ⟨rfl, rfl⟩
    | failed e => exact ⟨rfl, rfl⟩

/-- **An unfinished item takes all there is**, and of a longer input at least as much. -/
theorem State.length_le_front (more : Bytes) (h : (s.run input).1 = .unfinished) :
    input.length ≤ (s.front (input ++ more)).length := by
  induction s, input using State.request_induction with
  | short s input hshort =>
    by_cases hmore : (input ++ more).length < s.wanted
    · rw [front_of_short hmore, List.length_append]
      omega
    · rw [front, dif_neg hmore, List.length_append, List.length_take]
      omega
  | met s octets later hlen ih =>
    rw [run_of_request hlen] at h
    rw [List.append_assoc, front_of_request hlen]
    cases htake : s.take octets with
    | more next =>
      rw [htake] at h
      have hlater := ih next htake h
      simp only [List.length_append] at hlater ⊢
      omega
    | done v =>
      rw [htake] at h
      cases h
    | failed e =>
      rw [htake] at h
      cases h

/-- What is not more than one request asks for is taken, -/
theorem State.front_of_le (h : octets.length ≤ s.wanted) : s.front octets = octets := by
  rcases Nat.lt_or_eq_of_le h with hshort | hlen
  · exact front_of_short hshort
  · have hfront := front_of_request hlen []
    rw [List.append_nil] at hfront
    rw [hfront]
    cases s.take octets with
    | more | done | failed => simp

/-- and what is taken is taken of a longer input as well. -/
theorem State.length_le_of_front (h : s.front octets = octets) (more : Bytes) :
    octets.length ≤ (s.front (octets ++ more)).length := by
  rcases s.run_cases octets with ⟨hunfinished, -⟩ | ⟨hfinished, -⟩
  · exact length_le_front more hunfinished
  · have hsame : s.front (octets ++ more) = octets := (run_append more hfinished).2.trans h
    exact Nat.le_of_eq (congrArg List.length hsame.symm)

/-- An item that is read is what the parser takes, whatever is behind it. -/
theorem Reads.run_eq {v : Value} (h : Reads (.more s) octets (.done v)) (later : Bytes) :
    s.run (octets ++ later) = (.done v, later) ∧ s.front (octets ++ later) = octets := by
  generalize hp : Progress.more s = p at h
  generalize hq : Progress.done v = q at h
  -- along the requests
  induction h generalizing s with
  | refl p =>
    rw [← hp] at hq
    cases hq
  | @step s' first rest q hlen hrest ih =>
    cases hp
    subst hq
    rw [List.append_assoc, State.run_of_request hlen, State.front_of_request hlen]
    cases htake : s'.take first with
    | more t =>
      obtain ⟨hrun, hfront⟩ := ih htake.symm rfl
      exact ⟨hrun, by simp only [hfront]⟩
    | done w =>
      rw [htake] at hrest
      obtain ⟨rfl, rfl⟩ := hrest.of_done
      exact ⟨rfl, rfl⟩
    | failed e =>
      rw [htake] at hrest
      cases hrest.ne_failed

/-- What is read from memory meets one request after the other. -/
theorem reads_of_run {v : Value} (h : s.run input = (.done v, later)) :
    ∃ taken, input = taken ++ later ∧ Reads (.more s) taken (.done v) := by
  induction s, input using State.request_induction with
  | short s input hshort =>
    rw [State.run_of_short hshort] at h
    cases h
  | met s octets rest hlength ih =>
    rw [State.run_of_request hlength] at h
    cases htake : s.take octets with
    | more next =>
      rw [htake] at h
      obtain ⟨taken, rfl, hreads⟩ := ih next htake h
      rw [← htake] at hreads
      exact ⟨octets ++ taken, by rw [List.append_assoc], .step hlength hreads⟩
    | done w =>
      rw [htake] at h
      cases h
      have hone := Reads.single hlength
      rw [htake] at hone
      exact ⟨octets, rfl, hone⟩
    | failed e =>
      rw [htake] at h
      cases h

/-- **An item is read from memory** just if its octets meet the requests, one after the other. -/
theorem parse_eq_ok_iff {item : Bytes} {v : Value} :
    parse item = .ok v ↔ Reads (.more .start) item (.done v) := by
  constructor
  · intro h
    unfold parse at h
    split at h
    · cases h
    · cases h
    · rename_i w rest hrun
      split at h
      · rename_i hempty
        cases h
        obtain ⟨taken, rfl, hreads⟩ := reads_of_run hrun
        rw [List.isEmpty_iff] at hempty
        rwa [hempty, List.append_nil]
      · cases h
  · intro h
    obtain ⟨hrun, -⟩ := h.run_eq []
    rw [List.append_nil] at hrun
    rw [parse, hrun]
    rfl

/-- An item of which something is missing is unfinished. -/
theorem Reads.run_of_cut {v : Value} (h : Reads (.more s) (octets ++ later) (.done v))
    (hlater : later ≠ []) : (s.run octets).1 = .unfinished ∧ s.front octets = octets := by
  rcases s.run_cases octets with hcut | ⟨hfinished, -⟩
  · exact hcut
  · -- an outcome already would leave out what is missing
    have hfront := (State.run_append later hfinished).2
    have hwhole := (h.run_eq []).2
    rw [List.append_nil, hfront] at hwhole
    have hlen := (s.front_prefix octets).length_le
    have hpos := List.length_pos_iff.2 hlater
    rw [hwhole, List.length_append] at hlen
    omega

end WarcStream.Cbor
