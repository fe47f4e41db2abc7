import WarcStream.Proofs.Transport.Delivery
/-!
# Sources that agree up to some octet

Two sources may deliver the same at first and then part, in the middle of a
delivery: `Agrees`. As long as they agree on an octet that is still to come, a
read of one is answered as a read of the other, but for what comes behind the
octets they agree on (`Agrees.read_cases`).
-/

namespace WarcStream.Transport.Source

variable {s s' : Source} {room : Nat} {octets octets' p : Bytes}

/-- **The scripts agree on the octets `p`**: they start with the same deliveries, which bring them,
or bring the first of them and are followed by deliveries that both start with the rest. -/
inductive AgreesOn : Bytes → List Delivery → List Delivery → Prop
  /-- Whatever is delivered. -/
  | nothing (script script' : List Delivery) : AgreesOn [] script script'
  /-- Deliveries that start with the octets, and may go on in two ways. -/
  | parting (p more more' : Bytes) (script script' : List Delivery) :
      AgreesOn p (.data (p ++ more) :: script) (.data (p ++ more') :: script')
  /-- The same octets first. -/
  | data {p octets : Bytes} {script script' : List Delivery} :
      octets ≠ [] → AgreesOn p script script' →
      AgreesOn (octets ++ p) (.data octets :: script) (.data octets :: script')
  /-- The same fault first. -/
  | fault {p : Bytes} {script script' : List Delivery} (f : Fault) :
      AgreesOn p script script' → AgreesOn p (.fault f :: script) (.fault f :: script')

/-- Two sources agree on the octets `p`. -/
def Agrees (p : Bytes) (s s' : Source) : Prop := AgreesOn p s.script s'.script

/-- Inputs that start with the same octets. -/
theorem agrees_ofBytes (p more more' : Bytes) :
    Agrees p (ofBytes (p ++ more)) (ofBytes (p ++ more')) :=
  .parting p more more' [] []

/-- What two sources agree on is what each of them delivers first. -/
theorem AgreesOn.starts {script script' : List Delivery} (h : AgreesOn p script script') :
    p <+: octetsOf script ∧ p <+: octetsOf script' := by
  induction h with
  | nothing script script' => exact ⟨List.nil_prefix, List.nil_prefix⟩
  | parting p more more' script script' =>
    rw [octetsOf_data, octetsOf_data, List.append_assoc, List.append_assoc]
    exact ⟨List.prefix_append _ _, List.prefix_append _ _⟩
  | data _ _ ih =>
    rw [octetsOf_data, octetsOf_data]
    exact ⟨(List.prefix_append_right_inj _).2 ih.1, (List.prefix_append_right_inj _).2 ih.2⟩
  | fault f _ ih => exact ih

/-- Sources that agree on an octet are not at their end. -/
theorem Agrees.live_ne_nil (h : Agrees p s s') (hp : p ≠ []) : s.live ≠ [] ∧ s'.live ≠ [] := by
  have hlive {s : Source} {d : Delivery} {rest : List Delivery} (hs : d :: rest = s.script)
      (hd : d ≠ .data []) : s.live ≠ [] := by
    rw [live_of_cons hs.symm hd]
    exact List.cons_ne_nil _ _
  unfold Agrees at h
  generalize hs : s.script = script at h
  generalize hs' : s'.script = script' at h
  cases h with
  | nothing => exact absurd rfl hp
  | parting =>
    have hsome (more : Bytes) : Delivery.data (p ++ more) ≠ .data [] := by
      simpa using fun hnone => absurd hnone hp
    exact ⟨hlive hs.symm (hsome _), hlive hs'.symm (hsome _)⟩
  | data hsome => exact ⟨hlive hs.symm (by simpa using hsome), hlive hs'.symm (by simpa using hsome)⟩
  | fault f => exact ⟨hlive hs.symm nofun, hlive hs'.symm nofun⟩

/-- A read with room for all of a delivery, -/
theorem read_of_le {rest : List Delivery} (h : s.script = .data octets :: rest)
    (hle : octets.length ≤ room) : s.read room = (.ok octets, ⟨rest, s.reads + 1⟩) := by
  rw [read, h]
  exact if_pos hle

/-- and with room for less. -/
theorem read_of_lt {rest : List Delivery} (h : s.script = .data octets :: rest)
    (hlt : room < octets.length) :
    s.read room =
      (.ok (octets.take room), ⟨.data (octets.drop room) :: rest, s.reads + 1⟩) := by
  rw [read, h]
  exact if_neg (Nat.not_le.2 hlt)

/-- A read of a delivery brings the octets in front of it if it has room for them, -/
theorem read_of_append {more : Bytes} {rest : List Delivery}
    (h : s.script = .data (p ++ more) :: rest) (hle : p.length ≤ room) :
    ∃ piece next, s.read room = (.ok (p ++ piece), next) := by
  rcases Nat.lt_or_ge room (p ++ more).length with hlt | hge
  · have hread := read_of_lt h hlt
    rw [List.take_append, List.take_of_length_le hle] at hread
    exact ⟨_, _, hread⟩
  · exact ⟨more, _, read_of_le h hge⟩

/-- and else the first of them, and leaves the rest in front. -/
theorem read_of_append_of_lt {more : Bytes} {rest : List Delivery}
    (h : s.script = .data (p ++ more) :: rest) (hlt : room < p.length) :
    s.read room =
      (.ok (p.take room), ⟨.data (p.drop room ++ more) :: rest, s.reads + 1⟩) := by
  have hlong : room < (p ++ more).length := by
    rw [List.length_append]
    omega
  rw [read_of_lt h hlong, List.take_append_of_le_length (Nat.le_of_lt hlt),
    List.drop_append_of_le_length (Nat.le_of_lt hlt)]

/-- **All that a read of two sources can come to** that agree on an octet: both fail, both bring the
same piece of what they agree on, or both bring all of it, and whatever is behind it. -/
theorem Agrees.read_cases (h : Agrees p s s') (hp : p ≠ []) (hroom : 0 < room) :
    (∃ f next next', s.read room = (.error f, next) ∧ s'.read room = (.error f, next') ∧
      Agrees p next next') ∨
    (∃ piece rest next next', piece ≠ [] ∧ p = piece ++ rest ∧ s.read room = (.ok piece, next) ∧
      s'.read room = (.ok piece, next') ∧ Agrees rest next next') ∨
    ∃ more more' next next', s.read room = (.ok (p ++ more), next) ∧
      s'.read room = (.ok (p ++ more'), next') := by
  have hpiece {octets : Bytes} (hlt : room < octets.length) : octets.take room ≠ [] := by
    rw [← List.length_pos_iff, List.length_take]
    omega
  unfold Agrees at h
  generalize hs : s.script = script at h
  generalize hs' : s'.script = script' at h
  cases h with
  | nothing => exact absurd rfl hp
  | parting _ more more' rest rest' =>
    -- the read ends before the deliveries part, or behind that
    rcases Nat.lt_or_ge room p.length with hlt | hge
    · exact .inr (.inl ⟨p.take room, p.drop room, _, _, hpiece hlt,
        (List.take_append_drop room p).symm, read_of_append_of_lt hs hlt,
        read_of_append_of_lt hs' hlt, AgreesOn.parting _ _ _ _ _⟩)
    · obtain ⟨piece, next, hread⟩ := read_of_append hs hge
      obtain ⟨piece', next', hread'⟩ := read_of_append hs' hge
      exact .inr (.inr ⟨piece, piece', next, next', hread, hread'⟩)
  | @data q octets rest rest' hsome hrest =>
    rcases Nat.lt_or_ge room octets.length with hlt | hge
    · refine .inr (.inl ⟨octets.take room, octets.drop room ++ q, _, _, hpiece hlt, ?_,
        read_of_lt hs hlt, read_of_lt hs' hlt, AgreesOn.data ?_ hrest⟩)
      · rw [← List.append_assoc, List.take_append_drop]
      · rw [← List.length_pos_iff, List.length_drop]
        omega
    · exact .inr (.inl ⟨octets, q, _, _, hsome, rfl, read_of_le hs hge, read_of_le hs' hge, hrest⟩)
  | @fault _ rest rest' f hrest =>
    have hread {s : Source} {rest : List Delivery} (h : s.script = .fault f :: rest) :
        s.read room = (.error f, ⟨rest, s.reads + 1⟩) := by
      rw [read, h]
    exact .inl ⟨f, _, _, hread hs, hread hs', hrest⟩

end WarcStream.Transport.Source
