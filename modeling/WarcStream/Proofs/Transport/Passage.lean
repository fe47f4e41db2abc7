import WarcStream.Proofs.Transport.Delivery
/-!
# Reading from any source

A source may fail or end at any octet. Whoever reads from it makes one read
after the other, and no read behind the one that halts it, the end of the
stream or a failure for good: `Source.Passage`. `BufferedSource.Passage` keeps
the accounts of a buffer in between, what it holds at first and what is brought
against what is handed out and what it holds in the end. `read_cases`,
`awaitOctets_cases` and `gathered_gather` are all that a buffered source can do
when it is asked for octets.
-/

namespace WarcStream.Transport

/-- What halts the reading of a source. -/
inductive Halt where
  /-- A read met the end of the stream. -/
  | ended
  /-- A read failed for good. -/
  | failed (fault : Fault)
  deriving DecidableEq, Repr

namespace Source

variable {s mid next last : Source} {xs ys octets : Bytes} {halt : Option Halt} {f : Fault}
variable {room : Nat}

/-- **The reads between two sources.** They brought these octets; the last one halted the reading,
or none did. -/
inductive Passage : Source → Bytes → Option Halt → Source → Prop
  /-- No read was made. -/
  | still (s : Source) : Passage s [] none s
  /-- A read brought octets. -/
  | piece {s next last : Source} {room : Nat} {piece octets : Bytes} {halt : Option Halt} :
      s.read room = (.ok piece, next) → piece ≠ [] → Passage next octets halt last →
      Passage s (piece ++ octets) halt last
  /-- A read was interrupted. -/
  | interrupted {s next last : Source} {room : Nat} {f : Fault} {octets : Bytes}
      {halt : Option Halt} :
      s.read room = (.error f, next) → f.isInterruption = true → Passage next octets halt last →
      Passage s octets halt last
  /-- The last read had room for octets, and met the end of the stream. -/
  | ended {s next : Source} {room : Nat} :
      0 < room → s.read room = (.ok [], next) → Passage s [] (some .ended) next
  /-- The last read failed for good. -/
  | failed {s next : Source} {room : Nat} {f : Fault} :
      s.read room = (.error f, next) → f.isInterruption = false →
      Passage s [] (some (.failed f)) next

theorem Passage.trans (h : s.Passage xs none mid) (h' : mid.Passage ys halt last) :
    s.Passage (xs ++ ys) halt last := by
  generalize hnone : (none : Option Halt) = going at h
  induction h with
  | still => exact h'
  | piece hread hpiece _ ih =>
    rw [List.append_assoc]
    exact .piece hread hpiece (ih h' hnone)
  | interrupted hread hint _ ih => exact .interrupted hread hint (ih h' hnone)
  | ended => cases hnone
  | failed => cases hnone

theorem passage_of_octets (h : s.read room = (.ok octets, next)) (hsome : octets ≠ []) :
    s.Passage octets none next := by
  have hpassage := Passage.piece h hsome (.still next)
  rwa [List.append_nil] at hpassage

theorem passage_of_interruption (h : s.read room = (.error f, next))
    (hint : f.isInterruption = true) : s.Passage [] none next :=
  .interrupted h hint (.still next)

/-- **What a failure leaves behind**: the deliveries before it were octets and interruptions, and
nothing but they and the failure has been taken from the script. -/
theorem Passage.script_of_failed (h : s.Passage octets (some (.failed f)) last) :
    ∃ before, s.script = before ++ .fault f :: last.script ∧ octetsOf before = octets ∧
      ∀ d ∈ before, d.IsQuiet := by
  generalize hhalt : some (Halt.failed f) = halt at h
  induction h with
  | still => cases hhalt
  | ended => cases hhalt
  | failed hread _ =>
    cases hhalt
    exact ⟨[], script_of_fault hread, rfl, by simp⟩
  | @interrupted s next last room g octets halt hread hint _ ih =>
    obtain ⟨before, hscript, hoctets, hquiet⟩ := ih hhalt
    refine ⟨.fault g :: before, ?_, hoctets, ?_⟩
    · rw [script_of_fault hread, hscript, List.cons_append]
    · intro d hd
      rcases List.mem_cons.1 hd with rfl | hd
      · exact hint
      · exact hquiet d hd
  | @piece s next last room piece octets halt hread hpiece _ ih =>
    obtain ⟨before, hscript, rfl, hquiet⟩ := ih hhalt
    rcases script_of_octets hread hpiece with hs | ⟨more, rest, -, hs, hnext⟩
    · refine ⟨.data piece :: before, ?_, rfl, ?_⟩
      · rw [hs, hscript, List.cons_append]
      · intro d hd
        rcases List.mem_cons.1 hd with rfl | hd
        · exact hpiece
        · exact hquiet d hd
    · -- the rest of the delivery stands in front of the failure
      rw [hnext] at hscript
      cases before with
      | nil => cases hscript
      | cons d before =>
        obtain ⟨rfl, rfl⟩ := List.cons.inj hscript
        refine ⟨.data (piece ++ more) :: before, hs, ?_, ?_⟩
        · rw [octetsOf_data, octetsOf_data, List.append_assoc]
        · intro d hd
          rcases List.mem_cons.1 hd with rfl | hd
          · exact List.append_ne_nil_of_left_ne_nil hpiece more
          · exact hquiet d (List.mem_cons_of_mem _ hd)

/-- **Where nothing but interruptions comes in between**, the reads bring the next octets, all of
them up to the end of the stream, and there is no failure. -/
theorem Passage.of_delivers (h : s.Passage xs halt last) (hs : s.Delivers octets) :
    ∃ rest, octets = xs ++ rest ∧ last.Delivers rest ∧ (halt = some .ended → rest = []) ∧
      ∀ f, halt ≠ some (.failed f) := by
  induction h generalizing octets with
  | still => exact ⟨octets, rfl, hs, by simp, by simp⟩
  | piece hread hpiece _ ih =>
    obtain ⟨later, rfl, hlater⟩ := hs.of_octets hread hpiece
    obtain ⟨rest, rfl, hrest⟩ := ih hlater
    exact ⟨rest, (List.append_assoc _ _ _).symm, hrest⟩
  | interrupted hread _ _ ih => exact ih (hs.of_fault hread).2
  | ended hroom hread =>
    obtain ⟨rfl, hnext⟩ := hs.of_end hroom hread
    exact ⟨[], rfl, hnext, fun _ => rfl, by simp⟩
  | failed hread hlasting =>
    have hint := (hs.of_fault hread).1
    rw [hlasting] at hint
    cases hint

end Source

namespace BufferedSource

variable {b mid next : BufferedSource} {xs ys octets : Bytes} {halt : Option Halt} {f : Fault}
variable {room limit before count : Nat}

/-- **The reads between two buffered sources**, and the octets handed out. Nothing is lost and
nothing comes twice: what was held and what was brought has been handed out or is held still. A
buffer asks its source only when it holds nothing, so a halt leaves it empty. -/
structure Passage (b : BufferedSource) (handed : Bytes) (halt : Option Halt)
    (next : BufferedSource) : Prop where
  capacity_eq : next.capacity = b.capacity
  balance : ∃ brought, b.source.Passage brought halt next.source ∧
    b.buffer ++ brought = handed ++ next.buffer
  buffer_of_halt : halt ≠ none → next.buffer = []

theorem Passage.refl (b : BufferedSource) : b.Passage [] none b :=
  ⟨rfl, ⟨[], .still _, List.append_nil _⟩, fun h => absurd rfl h⟩

theorem Passage.trans (h : b.Passage xs none mid) (h' : mid.Passage ys halt next) :
    b.Passage (xs ++ ys) halt next := by
  obtain ⟨brought, hpassage, hbalance⟩ := h.balance
  obtain ⟨brought', hpassage', hbalance'⟩ := h'.balance
  refine ⟨h'.capacity_eq.trans h.capacity_eq, ⟨brought ++ brought', hpassage.trans hpassage', ?_⟩,
    h'.buffer_of_halt⟩
  rw [← List.append_assoc, hbalance, List.append_assoc, hbalance', List.append_assoc]

/-- When the reading is halted, all that was held and brought has been handed out. -/
theorem Passage.handed_eq (h : b.Passage xs halt next) (hhalt : halt ≠ none) :
    ∃ brought, b.source.Passage brought halt next.source ∧ xs = b.buffer ++ brought := by
  obtain ⟨brought, hpassage, hbalance⟩ := h.balance
  rw [h.buffer_of_halt hhalt, List.append_nil] at hbalance
  exact ⟨brought, hpassage, hbalance.symm⟩

/-- **Where nothing but interruptions comes in between**, what is handed out are the next octets,
all of them up to the end of the stream, and there is no failure. -/
theorem Passage.of_delivers (h : b.Passage xs halt next) (hb : b.Delivers octets) :
    ∃ rest, octets = xs ++ rest ∧ next.Delivers rest ∧ (halt = some .ended → rest = []) ∧
      ∀ f, halt ≠ some (.failed f) := by
  obtain ⟨hcap, due, rfl, hsource⟩ := hb
  obtain ⟨brought, hpassage, hbalance⟩ := h.balance
  obtain ⟨rest, rfl, hnext, hended, hfailed⟩ := hpassage.of_delivers hsource
  refine ⟨next.buffer ++ rest, ?_, ⟨h.capacity_eq ▸ hcap, rest, rfl, hnext⟩, fun hhalt => ?_,
    hfailed⟩
  · rw [← List.append_assoc, hbalance, List.append_assoc]
  · rw [h.buffer_of_halt (by simp [hhalt]), hended hhalt]
    rfl

/-- **All that filling the buffer can do.** -/
theorem fill_cases (hcap : 0 < b.capacity) :
    (∃ next, b.fill = (.ok (), next) ∧ next.buffer ≠ [] ∧ b.Passage [] none next) ∨
    (∃ next, b.fill = (.ok (), next) ∧ b.Passage [] (some .ended) next) ∨
    (∃ f next, b.fill = (.error f, next) ∧ f.isInterruption = true ∧ b.Passage [] none next) ∨
    ∃ f next, b.fill = (.error f, next) ∧ f.isInterruption = false ∧
      b.Passage [] (some (.failed f)) next := by
  by_cases hb : b.buffer = []
  · match hread : b.source.read b.capacity with
    | (.ok [], source) =>
      refine .inr (.inl ⟨{ b with buffer := [], source }, by simp [fill, hb, hread], rfl,
        ⟨[], .ended hcap hread, ?_⟩, fun _ => rfl⟩)
      rw [hb]
    | (.ok (x :: octets), source) =>
      refine .inl ⟨{ b with buffer := x :: octets, source }, by simp [fill, hb, hread], by simp,
        rfl, ⟨_, Source.passage_of_octets hread (by simp), ?_⟩, fun h => absurd rfl h⟩
      rw [hb]
    | (.error f, source) =>
      have hfill : b.fill = (.error f, { b with source }) := by simp [fill, hb, hread]
      cases hint : f.isInterruption with
      | true =>
        exact .inr (.inr (.inl ⟨f, _, hfill, hint, rfl,
          ⟨[], Source.passage_of_interruption hread hint, List.append_nil _⟩,
          fun h => absurd rfl h⟩))
      | false =>
        exact .inr (.inr (.inr ⟨f, _, hfill, hint, rfl, ⟨[], .failed hread hint, List.append_nil _⟩,
          fun _ => hb⟩))
  · exact .inl ⟨b, by simp [fill, hb], hb, .refl b⟩

/-- **All that one read through the buffer can do.** -/
theorem read_cases (hcap : 0 < b.capacity) (hroom : 0 < room) :
    (∃ octets next, b.read room = (.ok octets, next) ∧ octets ≠ [] ∧ b.Passage octets none next) ∨
    (∃ next, b.read room = (.ok [], next) ∧ b.Passage [] (some .ended) next) ∨
    (∃ f next, b.read room = (.error f, next) ∧ f.isInterruption = true ∧
      b.Passage [] none next) ∨
    ∃ f next, b.read room = (.error f, next) ∧ f.isInterruption = false ∧
      b.Passage [] (some (.failed f)) next := by
  by_cases hpast : b.buffer = [] ∧ b.capacity ≤ room
  · -- the request goes past the buffer
    have hbuffer := hpast.1
    match hread : b.source.read room with
    | (.ok [], source) =>
      refine .inr (.inl ⟨{ b with source }, by simp [read, hpast, hread], rfl,
        ⟨[], .ended hroom hread, List.append_nil _⟩, fun _ => hbuffer⟩)
    | (.ok (x :: octets), source) =>
      refine .inl ⟨x :: octets, { b with source }, by simp [read, hpast, hread], by simp, rfl,
        ⟨_, Source.passage_of_octets hread (by simp), ?_⟩, fun h => absurd rfl h⟩
      rw [hbuffer, List.append_nil, List.nil_append]
    | (.error f, source) =>
      have hanswer : b.read room = (.error f, { b with source }) := by
        simp [read, hpast, hread]
      cases hint : f.isInterruption with
      | true =>
        exact .inr (.inr (.inl ⟨f, _, hanswer, hint, rfl,
          ⟨[], Source.passage_of_interruption hread hint, List.append_nil _⟩,
          fun h => absurd rfl h⟩))
      | false =>
        exact .inr (.inr (.inr ⟨f, _, hanswer, hint, rfl,
          ⟨[], .failed hread hint, List.append_nil _⟩, fun _ => hbuffer⟩))
  · have hcond : (b.buffer.isEmpty && decide (b.capacity ≤ room)) = false := by
      simpa using hpast
    rcases fill_cases hcap with ⟨next, hfill, hsome, hpassage⟩ | ⟨next, hfill, hpassage⟩ |
      ⟨f, next, hfill, hint, hpassage⟩ | ⟨f, next, hfill, hint, hpassage⟩
    · have hpos := List.length_pos_iff.2 hsome
      refine .inl ⟨next.buffer.take room, { next with buffer := next.buffer.drop room },
        by simp [read, hcond, hfill], ?_, hpassage.capacity_eq, ?_, fun h => absurd rfl h⟩
      · rw [← List.length_pos_iff, List.length_take]
        omega
      · obtain ⟨brought, hbrought, hbalance⟩ := hpassage.balance
        refine ⟨brought, hbrought, ?_⟩
        rw [hbalance, List.nil_append, List.take_append_drop]
    · have hempty := hpassage.buffer_of_halt (by simp)
      refine .inr (.inl ⟨next, ?_, hpassage⟩)
      have hsame : { next with buffer := [] } = next := by rw [← hempty]
      simp [read, hcond, hfill, hempty, hsame]
    · exact .inr (.inr (.inl ⟨f, next, by simp [read, hcond, hfill], hint, hpassage⟩))
    · exact .inr (.inr (.inr ⟨f, next, by simp [read, hcond, hfill], hint, hpassage⟩))

/-- The equation of waiting for octets. -/
theorem awaitOctets_eq (b : BufferedSource) :
    b.awaitOctets =
      match b.fill with
      | (.ok (), filled) => (.ok (!filled.buffer.isEmpty), filled)
      | (.error f, next) => if f.isInterruption then next.awaitOctets else (.error f, next) := by
  rw [awaitOctets]
  generalize b.fill = answer
  obtain ⟨f | _, next⟩ := answer
  · rfl
  · rfl

/-- **All that waiting for octets can come to.** -/
theorem awaitOctets_cases (hcap : 0 < b.capacity) :
    (∃ next, b.awaitOctets = (.ok true, next) ∧ next.buffer ≠ [] ∧ b.Passage [] none next) ∨
    (∃ next, b.awaitOctets = (.ok false, next) ∧ b.Passage [] (some .ended) next) ∨
    ∃ f next, b.awaitOctets = (.error f, next) ∧ f.isInterruption = false ∧
      b.Passage [] (some (.failed f)) next := by
  -- along the interruptions, each of which uses up a delivery
  induction hn : b.stock using Nat.strongRecOn generalizing b with
  | _ n ih =>
    rcases fill_cases hcap with ⟨next, hfill, hsome, hpassage⟩ | ⟨next, hfill, hpassage⟩ |
      ⟨f, next, hfill, hint, hpassage⟩ | ⟨f, next, hfill, hint, hpassage⟩
    · refine .inl ⟨next, ?_, hsome, hpassage⟩
      rw [awaitOctets_eq, hfill]
      simp [hsome]
    · refine .inr (.inl ⟨next, ?_, hpassage⟩)
      rw [awaitOctets_eq, hfill]
      simp [hpassage.buffer_of_halt]
    · have hagain : b.awaitOctets = next.awaitOctets := by
        rw [awaitOctets_eq, hfill]
        exact if_pos hint
      have hless := hn ▸ stock_fill_lt hfill
      rw [hagain]
      rcases ih next.stock hless (hpassage.capacity_eq ▸ hcap) rfl with
        ⟨last, hawait, hsome, hlast⟩ | ⟨last, hawait, hlast⟩ | ⟨g, last, hawait, hg, hlast⟩
      · exact .inl ⟨last, hawait, hsome, hpassage.trans hlast⟩
      · exact .inr (.inl ⟨last, hawait, hpassage.trans hlast⟩)
      · exact .inr (.inr ⟨g, last, hawait, hg, hpassage.trans hlast⟩)
    · refine .inr (.inr ⟨f, next, ?_, hint, hpassage⟩)
      rw [awaitOctets_eq, hfill]
      simp [hint]

/-- Where nothing but interruptions comes in between, waiting tells whether there are octets, and
takes none. -/
theorem Delivers.awaitOctets (h : b.Delivers octets) :
    ∃ next, b.awaitOctets = (.ok (!octets.isEmpty), next) ∧ next.Delivers octets := by
  rcases awaitOctets_cases h.capacity_pos with ⟨next, hawait, hsome, hpassage⟩ |
    ⟨next, hawait, hpassage⟩ | ⟨f, next, -, -, hpassage⟩
  · obtain ⟨rest, rfl, hnext, -⟩ := hpassage.of_delivers h
    refine ⟨next, ?_, hnext⟩
    obtain ⟨-, due, rfl, -⟩ := hnext
    have hany : (next.buffer ++ due).isEmpty = false := by simp [hsome]
    rw [hawait, hany]
    rfl
  · obtain ⟨rest, rfl, hnext, hended, -⟩ := hpassage.of_delivers h
    obtain rfl := hended rfl
    exact ⟨next, hawait, hnext⟩
  · obtain ⟨-, -, -, -, hfailed⟩ := hpassage.of_delivers h
    exact absurd rfl (hfailed f)

/-- The equation of gathering. -/
theorem gather_eq (hcount : count ≠ 0) :
    b.gather limit before count =
      match b.read count with
      | (.error f, next) =>
        if f.isInterruption then next.gather limit before count else ([], some (.fault f), next)
      | (.ok octets, next) =>
        if octets = [] then ([], some .ended, next)
        else if limit < before + octets.length then
          ([], some (.excess (before + octets.length)), next)
        else
          (octets ++ (next.gather limit (before + octets.length) (count - octets.length)).1,
            (next.gather limit (before + octets.length) (count - octets.length)).2) := by
  rw [gather, if_neg hcount]
  generalize b.read count = answer
  obtain ⟨f | octets, next⟩ := answer
  · rfl
  · rfl

theorem gather_of_interruption {f : Fault} {next : BufferedSource} (hcount : count ≠ 0)
    (hread : b.read count = (.error f, next)) (hint : f.isInterruption = true) :
    b.gather limit before count = next.gather limit before count := by
  rw [gather_eq hcount, hread]
  exact if_pos hint

theorem gather_of_end {next : BufferedSource} (hcount : count ≠ 0)
    (hread : b.read count = (.ok [], next)) :
    b.gather limit before count = ([], some .ended, next) := by
  rw [gather_eq hcount, hread]
  exact if_pos rfl

theorem gather_of_large {next : BufferedSource} (hcount : count ≠ 0)
    (hread : b.read count = (.ok octets, next)) (hsome : octets ≠ [])
    (hlimit : limit < before + octets.length) :
    b.gather limit before count = ([], some (.excess (before + octets.length)), next) := by
  rw [gather_eq hcount, hread]
  simp only [if_neg hsome, if_pos hlimit]

theorem gather_of_piece {next : BufferedSource} (hcount : count ≠ 0)
    (hread : b.read count = (.ok octets, next)) (hsome : octets ≠ [])
    (hlimit : before + octets.length ≤ limit) :
    b.gather limit before count =
      (octets ++ (next.gather limit (before + octets.length) (count - octets.length)).1,
        (next.gather limit (before + octets.length) (count - octets.length)).2) := by
  rw [gather_eq hcount, hread]
  simp only [if_neg hsome, if_neg (Nat.not_lt.2 hlimit)]

/-- **All that gathering octets can come to.** -/
inductive Gathered (b : BufferedSource) (limit before count : Nat) :
    Bytes → Option Shortfall → BufferedSource → Prop
  /-- The octets asked for came. -/
  | all {octets : Bytes} {next : BufferedSource} :
      octets.length = count → b.Passage octets none next →
      Gathered b limit before count octets none next
  /-- The stream ended before. -/
  | ended {octets : Bytes} {next : BufferedSource} :
      octets.length < count → b.Passage octets (some .ended) next →
      Gathered b limit before count octets (some .ended) next
  /-- The source failed before. -/
  | fault {octets : Bytes} {next : BufferedSource} {f : Fault} :
      octets.length < count → f.isInterruption = false → b.Passage octets (some (.failed f)) next →
      Gathered b limit before count octets (some (.fault f)) next
  /-- More of the octets asked for came than the limit allows. -/
  | excess {octets more : Bytes} {next : BufferedSource} {size : Nat} :
      (octets ++ more).length ≤ count → size = before + (octets ++ more).length → limit < size →
      b.Passage (octets ++ more) none next →
      Gathered b limit before count octets (some (.excess size)) next

/-- What is gathered behind a piece is gathered with it. -/
theorem Gathered.behind {stop : Option Shortfall}
    (h : mid.Gathered limit (before + xs.length) (count - xs.length) ys stop next)
    (hlen : xs.length ≤ count) (hpassage : b.Passage xs none mid) :
    b.Gathered limit before count (xs ++ ys) stop next := by
  cases h with
  | all hcount hrest =>
    refine .all ?_ (hpassage.trans hrest)
    rw [List.length_append]
    omega
  | ended hcount hrest =>
    refine .ended ?_ (hpassage.trans hrest)
    rw [List.length_append]
    omega
  | fault hcount hint hrest =>
    refine .fault ?_ hint (hpassage.trans hrest)
    rw [List.length_append]
    omega
  | excess hcount hsize hlarge hrest =>
    have hwhole := hpassage.trans hrest
    rw [← List.append_assoc] at hwhole
    refine .excess ?_ ?_ hlarge hwhole
    · rw [List.append_assoc, List.length_append]
      omega
    · rw [List.append_assoc, List.length_append]
      omega

/-- **Gathering** from any source: what comes is the next of what the source brings, as much as was
asked for if nothing is in the way, and within the limit. -/
theorem gathered_gather (hcap : 0 < b.capacity) (before count : Nat) (hbefore : before ≤ limit) :
    ∃ octets stop next, b.gather limit before count = (octets, stop, next) ∧
      b.Gathered limit before count octets stop next ∧ before + octets.length ≤ limit := by
  -- along the reads, each of which lowers the stock
  induction hn : b.stock using Nat.strongRecOn generalizing b before count with
  | _ n ih =>
    by_cases hcount : count = 0
    · subst hcount
      refine ⟨[], none, b, ?_, .all rfl (.refl b), hbefore⟩
      rw [BufferedSource.gather, if_pos rfl]
    rcases read_cases hcap (Nat.pos_of_ne_zero hcount) with
      ⟨piece, next, hread, hpiece, hpassage⟩ | ⟨next, hread, hpassage⟩ |
        ⟨f, next, hread, hint, hpassage⟩ | ⟨f, next, hread, hint, hpassage⟩
    · have hlen := length_read_le hread
      by_cases hlarge : limit < before + piece.length
      · exact ⟨[], _, next, gather_of_large hcount hread hpiece hlarge,
          .excess hlen rfl hlarge hpassage, hbefore⟩
      · have hlower := stock_read_add_le hread
        have hpos := List.length_pos_iff.2 hpiece
        obtain ⟨octets, stop, last, hgather, hgathered, hwithin⟩ :=
          ih next.stock (by omega) (hpassage.capacity_eq ▸ hcap) (before + piece.length)
            (count - piece.length) (by omega) rfl
        refine ⟨piece ++ octets, stop, last, ?_, hgathered.behind hlen hpassage, ?_⟩
        · rw [gather_of_piece hcount hread hpiece (by omega), hgather]
        · rw [List.length_append]
          omega
    · exact ⟨[], _, next, gather_of_end hcount hread,
        .ended (Nat.pos_of_ne_zero hcount) hpassage, hbefore⟩
    · obtain ⟨octets, stop, last, hgather, hgathered, hwithin⟩ :=
        ih next.stock (hn ▸ stock_read_lt hread) (hpassage.capacity_eq ▸ hcap) before count hbefore
          rfl
      refine ⟨octets, stop, last, ?_, hgathered.behind (Nat.zero_le count) hpassage, hwithin⟩
      rw [gather_of_interruption hcount hread hint, hgather]
    · refine ⟨[], _, next, ?_, .fault (Nat.pos_of_ne_zero hcount) hint hpassage, hbefore⟩
      rw [gather_eq hcount, hread]
      simp [hint]

end BufferedSource

end WarcStream.Transport
