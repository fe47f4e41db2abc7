import WarcStream.Proofs.Cbor.Consumption
import WarcStream.Proofs.Transport.Passage
/-!
# An item from any source

The source that an item is read from may end or fail anywhere in it. What has
been taken of the item is what was brought until then, and the item comes to an
outcome only where the octets taken do: `Pulled`, which `pulled_pull` says of
every item. A source with nothing but interruptions in between is read to the
outcome of its octets, or to the limit if the parser takes more than that
(`pull_of_delivers`, `pull_of_excess`).
-/

namespace WarcStream.Cbor

open Transport

variable {s t : State} {limit : Nat} {b mid next : BufferedSource} {input octets more : Bytes}
variable {arrival : Arrival}

/-- What an outcome is to a reader whose source has ended behind the input. -/
def Arrival.ofOutcome : Outcome → Arrival
  | .done v => .done v
  | .failed e => .failed e
  | .unfinished => .failed .truncated

/-- **All that reading an item can come to**: what arrives, the octets taken of it, and what is left
of the source. -/
inductive State.Pulled (s : State) (limit : Nat) (b : BufferedSource) :
    Arrival → Bytes → BufferedSource → Prop
  /-- The item came to an outcome with the last octet taken. -/
  | outcome {octets : Bytes} {next : BufferedSource} :
      (s.run octets).1 ≠ .unfinished → s.front octets = octets → b.Passage octets none next →
      Pulled s limit b (.ofOutcome (s.run octets).1) octets next
  /-- The stream ended in the item. -/
  | ended {octets : Bytes} {next : BufferedSource} :
      (s.run octets).1 = .unfinished → b.Passage octets (some .ended) next →
      Pulled s limit b (.failed .truncated) octets next
  /-- The source failed in the item. -/
  | fault {octets : Bytes} {next : BufferedSource} {f : Fault} :
      (s.run octets).1 = .unfinished → b.Passage octets (some (.failed f)) next →
      Pulled s limit b (.ofShortfall (.fault f)) octets next
  /-- More octets of the item came than the limit allows. -/
  | excess {octets more : Bytes} {next : BufferedSource} {size : Nat} :
      s.front (octets ++ more) = octets ++ more → size = s.offset + (octets ++ more).length →
      limit < size → b.Passage (octets ++ more) none next →
      Pulled s limit b (.excess size) octets next

/-- What is read behind a request that was met is read with it. -/
theorem State.Pulled.behind (h : t.Pulled limit mid arrival more next)
    (hlen : octets.length = s.wanted) (htake : s.take octets = .more t)
    (hpassage : b.Passage octets none mid) : s.Pulled limit b arrival (octets ++ more) next := by
  have hrun : s.run (octets ++ more) = t.run more := by
    rw [State.run_of_request hlen, htake]
  have hfront (later : Bytes) : s.front (octets ++ later) = octets ++ t.front later := by
    rw [State.front_of_request hlen, htake]
  cases h with
  | outcome hfinished hall hrest =>
    rw [← hrun] at hfinished ⊢
    exact .outcome hfinished (by rw [hfront, hall]) (hpassage.trans hrest)
  | ended hunfinished hrest =>
    rw [← hrun] at hunfinished
    exact .ended hunfinished (hpassage.trans hrest)
  | fault hunfinished hrest =>
    rw [← hrun] at hunfinished
    exact .fault hunfinished (hpassage.trans hrest)
  | excess hall hsize hlarge hrest =>
    have hcounted := at_take s octets t htake
    have hwhole := hpassage.trans hrest
    rw [← List.append_assoc] at hwhole
    refine .excess ?_ ?_ hlarge hwhole
    · rw [List.append_assoc, hfront, hall]
    · rw [List.append_assoc, List.length_append]
      omega

/-- What is gathered for one request but cannot meet it is the end of the item. -/
theorem State.pulled_of_shortfall {shortfall : Shortfall}
    (h : b.Gathered limit s.offset s.wanted octets (some shortfall) next) :
    s.Pulled limit b (.ofShortfall shortfall) octets next := by
  cases h with
  | ended hshort hpassage => exact .ended (by rw [State.run_of_short hshort]) hpassage
  | fault hshort _ hpassage => exact .fault (by rw [State.run_of_short hshort]) hpassage
  | excess hcount hsize hlarge hpassage =>
    exact .excess (State.front_of_le hcount) hsize hlarge hpassage

/-- **An item from any source.** -/
theorem State.pulled_pull (taken : Bytes) (hcap : 0 < b.capacity) (hoffset : s.offset ≤ limit) :
    ∃ arrival octets next, s.pull limit taken b = (arrival, octets.reverseAux taken, next) ∧
      s.Pulled limit b arrival octets next ∧ s.offset + octets.length ≤ limit := by
  -- along the requests that are met, each of which lowers the stock
  induction hn : b.stock using Nat.strongRecOn generalizing s b taken with
  | _ n ih =>
    obtain ⟨octets, stop, mid, hgather, hgathered, hwithin⟩ :=
      BufferedSource.gathered_gather hcap s.offset s.wanted hoffset
    cases stop with
    | some shortfall =>
      exact ⟨_, octets, mid, pull_of_shortfall hgather, pulled_of_shortfall hgathered, hwithin⟩
    | none =>
      cases hgathered with
      | all hlen hpassage =>
        have hrun := State.run_of_request hlen []
        have hfront := State.front_of_request hlen []
        rw [List.append_nil] at hrun hfront
        cases htake : s.take octets with
        | more t =>
          have hcounted := at_take s octets t htake
          have hlower := b.stock_gather_add_le limit s.offset s.wanted (by rw [hgather])
          have hpos : 0 < s.wanted := Nat.succ_pos _
          simp only [hgather] at hlower
          obtain ⟨arrival, more, last, hpull, hpulled, hbound⟩ :=
            ih mid.stock (by omega) (octets.reverseAux taken) (hpassage.capacity_eq ▸ hcap)
              (s := t) (by omega) rfl
          refine ⟨arrival, octets ++ more, last, ?_, hpulled.behind hlen htake hpassage, ?_⟩
          · rw [pull_of_more hgather htake, hpull, List.reverseAux_eq, List.reverseAux_eq,
              List.reverseAux_eq, List.reverse_append, List.append_assoc]
          · rw [List.length_append]
            omega
        | done v =>
          rw [htake] at hrun hfront
          have hpulled : s.Pulled limit b (.ofOutcome (s.run octets).1) octets mid :=
            .outcome (by rw [hrun]; simp) (by simpa using hfront) hpassage
          rw [hrun] at hpulled
          exact ⟨.done v, octets, mid, pull_of_done hgather htake, hpulled, hwithin⟩
        | failed e =>
          rw [htake] at hrun hfront
          have hpulled : s.Pulled limit b (.ofOutcome (s.run octets).1) octets mid :=
            .outcome (by rw [hrun]; simp) (by simpa using hfront) hpassage
          rw [hrun] at hpulled
          refine ⟨.failed e, octets, mid, ?_, hpulled, hwithin⟩
          rw [pull_eq, hgather]
          simp only [htake]

/-- A whole item is read from its start. -/
theorem pulled_pull (limit : Nat) (hcap : 0 < b.capacity) :
    ∃ arrival octets next, pull limit b = (arrival, octets, next) ∧
      State.start.Pulled limit b arrival octets next ∧ octets.length ≤ limit := by
  have hstart : State.start.offset = 0 := rfl
  obtain ⟨arrival, octets, next, hpull, hpulled, hwithin⟩ :=
    State.pulled_pull [] hcap (hstart ▸ Nat.zero_le limit)
  rw [hstart, Nat.zero_add] at hwithin
  refine ⟨arrival, octets, next, ?_, hpulled, hwithin⟩
  simp only [pull, hpull, List.reverseAux_eq, List.append_nil, List.reverse_reverse]

/-! ## Where nothing but interruptions comes in between -/

/-- What is read of an item is what the parser takes of the input, and the source is left with what
is behind it, unless the parser takes more than the limit allows. -/
theorem State.Pulled.of_delivers (h : s.Pulled limit b arrival octets next)
    (hb : b.Delivers input) :
    (arrival = .ofOutcome (s.run input).1 ∧ octets = s.front input ∧
      next.Delivers (input.drop (s.front input).length)) ∨
    ∃ size, arrival = .excess size ∧ limit < size ∧
      limit < s.offset + (s.front input).length := by
  cases h with
  | outcome hfinished hall hpassage =>
    obtain ⟨rest, rfl, hnext, -⟩ := hpassage.of_delivers hb
    obtain ⟨hrun, hfront⟩ := State.run_append rest hfinished
    refine .inl ⟨by rw [hrun], by rw [hfront, hall], ?_⟩
    rw [hfront, hall, List.drop_left]
    exact hnext
  | ended hunfinished hpassage =>
    obtain ⟨rest, rfl, hnext, hended, -⟩ := hpassage.of_delivers hb
    obtain rfl := hended rfl
    rw [List.append_nil]
    rcases s.run_cases octets with ⟨-, hfront⟩ | ⟨hfinished, -⟩
    · refine .inl ⟨by rw [hunfinished]; rfl, hfront.symm, ?_⟩
      rw [hfront, List.drop_length]
      exact hnext
    · exact absurd hunfinished hfinished
  | fault _ hpassage =>
    obtain ⟨-, -, -, -, hfailed⟩ := hpassage.of_delivers hb
    exact absurd rfl (hfailed _)
  | @excess _ more _ size hall hsize hlarge hpassage =>
    obtain ⟨rest, rfl, -⟩ := hpassage.of_delivers hb
    have hless := State.length_le_of_front hall rest
    exact .inr ⟨size, rfl, hlarge, by omega⟩

/-- **An item within the limit** is read from a source as from memory. -/
theorem pull_of_delivers (hb : b.Delivers input)
    (hlimit : (State.start.front input).length ≤ limit) :
    ∃ next, pull limit b =
        (.ofOutcome (State.start.run input).1, State.start.front input, next) ∧
      next.Delivers (input.drop (State.start.front input).length) := by
  have hstart : State.start.offset = 0 := rfl
  obtain ⟨arrival, octets, next, hpull, hpulled, -⟩ := pulled_pull limit hb.capacity_pos
  obtain ⟨rfl, rfl, hnext⟩ | ⟨size, -, -, hlarge⟩ := hpulled.of_delivers hb
  · exact ⟨next, hpull, hnext⟩
  · omega

/-- **An item over the limit**: where the parser takes more than the limit allows, reading stops. -/
theorem pull_of_excess (hb : b.Delivers input)
    (hlimit : limit < (State.start.front input).length) :
    ∃ size octets next, pull limit b = (.excess size, octets, next) ∧ limit < size := by
  obtain ⟨arrival, octets, next, hpull, hpulled, hwithin⟩ := pulled_pull limit hb.capacity_pos
  obtain ⟨-, rfl, -⟩ | ⟨size, rfl, hsize, -⟩ := hpulled.of_delivers hb
  · omega
  · exact ⟨size, octets, next, hpull, hsize⟩

end WarcStream.Cbor
