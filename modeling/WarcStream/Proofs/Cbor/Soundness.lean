import WarcStream.Proofs.Cbor.Consumption
import WarcStream.Proofs.Cbor.Grammar
/-!
# Nothing else is a CBOR item

Whatever the machine reads follows the grammar. A run that comes to a value meets
its requests from the front of the octets to come; wherever it is about to read a
part of an item, the part is there, and the run goes on behind it
(`runs_of_reads`, `items_of_reads`, `entries_of_reads`, `followsBelow`). So an
item that is read spells a value, and what is read is that value with the entries
of its maps in order (`spells_of_parse`, `parse_eq_sorted_of_spells`).
-/

namespace WarcStream.Cbor

variable {s : State} {stack : List Open} {slot : Slot} {purpose : Purpose} {string : Running}
variable {item xs rest text kept : Bytes} {offset origin start more n nesting tag left bound : Nat}
variable {length : Option Nat} {head : Header} {v w : Value} {done : List Value}
variable {found : List (String × Value)} {plain : Bool}

/-! ## Requests -/

/-- The next request is met from the front. -/
theorem request_of_reads (h : Reads (.more s) xs (.done v)) :
    ∃ octets rest, xs = octets ++ rest ∧ octets.length = s.wanted ∧
      Reads (s.take octets) rest (.done v) := by
  cases h with
  | step hlength hrest => exact ⟨_, _, rfl, hlength, hrest⟩

/-- Nothing comes of an error. -/
theorem not_reads_failed (e : Error) : ¬ Reads (.failed e) xs (.done v) := by
  intro h
  cases h.ne_failed

/-- A header has at least one octet. -/
theorem Heads.length_pos (h : Heads xs head) : 0 < xs.length := by
  cases h with
  | intro => exact Nat.succ_pos _

/-- So has a key. -/
theorem Names.length_pos {key : String} (h : Names xs key) : 0 < xs.length := by
  cases h with
  | text hhead | tagged hhead =>
    rw [List.length_append]
    exact Nat.add_pos_left hhead.length_pos _

/-- A header from its octets. -/
theorem header_of_reads {first : UInt8} {argument : Bytes}
    (h : Reads (takeArgument offset stack slot first argument) rest (.done v)) :
    ∃ head start, Header.of? first argument = some head ∧
      Reads (takeHeader start offset stack slot head) rest (.done v) := by
  unfold takeArgument at h
  simp only at h
  split at h
  · rename_i head hhead
    exact ⟨head, _, hhead, h⟩
  · exact absurd h (not_reads_failed _)

/-- **A header is read** where one is asked for. -/
theorem heads_of_reads (h : Reads (.more ⟨stack, .first slot, offset⟩) xs (.done v)) :
    ∃ octets rest head start offset', xs = octets ++ rest ∧ Heads octets head ∧
      Reads (takeHeader start offset' stack slot head) rest (.done v) := by
  obtain ⟨octets, rest, rfl, hlength, hread⟩ := request_of_reads h
  obtain ⟨first, rfl⟩ := List.length_eq_one_iff.1 hlength
  simp only [State.take, List.headD_cons] at hread
  split at hread
  · exact absurd hread (not_reads_failed _)
  · rename_i hwidth
    obtain ⟨head, start, hhead, hread⟩ := header_of_reads hread
    exact ⟨[first], rest, head, start, _, rfl, .intro hwidth hhead, hread⟩
  · rename_i more hwidth
    obtain ⟨argument, later, rfl, hlength', hread⟩ := request_of_reads hread
    obtain ⟨head, start, hhead, hread⟩ := header_of_reads hread
    have hargument : some (more + 1) = some argument.length := congrArg some hlength'.symm
    exact ⟨first :: argument, later, head, start, _, rfl, .intro (hwidth.trans hargument) hhead,
      hread⟩

/-! ## Texts -/

/-- A string is read piece by piece, whether or not a piece ends inside a character. -/
theorem piece_of_reads
    (h : Reads (.more ⟨stack, .piece string more kept origin, offset⟩) xs (.done v)) :
    ∃ bs rest offset', xs = bs ++ rest ∧ bs.length = more + 1 ∧
      Reads (endPart offset' origin stack { string with text := string.text ++ (kept ++ bs) }) rest
        (.done v) := by
  -- along the octets still to come, of which each piece takes at least one
  induction more using Nat.strongRecOn generalizing string kept offset xs with
  | ind more ih =>
    obtain ⟨octets, rest, rfl, hlength, hread⟩ := request_of_reads h
    have hfits : 0 < octets.length ∧ octets.length ≤ more + 1 := by
      simp only [State.wanted, State.wantedBefore] at hlength
      omega
    simp only [State.take, takePiece] at hread
    generalize (if string.purpose.isText = true then Text.completeLength (kept ++ octets)
      else (kept ++ octets).length) = whole at hread
    split at hread
    · exact absurd hread (not_reads_failed _)
    · split at hread
      · -- the octets of an unfinished character go over to the next piece
        rename_i left hleft
        obtain ⟨bs, later, offset', rfl, hbs, hread⟩ := ih left (by omega) hread
        refine ⟨octets ++ bs, later, offset', by rw [List.append_assoc], ?_, ?_⟩
        · rw [List.length_append]
          omega
        · have htext : string.text ++ (kept ++ octets).take whole ++
              ((kept ++ octets).drop whole ++ bs) = string.text ++ (kept ++ (octets ++ bs)) := by
            rw [List.append_assoc, ← List.append_assoc _ _ bs, List.take_append_drop,
              List.append_assoc]
          rwa [htext] at hread
      · rename_i hleft
        split at hread
        · rename_i hempty
          refine ⟨octets, rest, offset + octets.length, rfl, by omega, ?_⟩
          rw [List.isEmpty_iff] at hempty
          have hall : (kept ++ octets).take whole = kept ++ octets := by
            have hsplit := List.take_append_drop whole (kept ++ octets)
            rwa [hempty, List.append_nil] at hsplit
          rwa [hall] at hread
        · exact absurd hread (not_reads_failed _)

/-- So many octets of a string are read. -/
theorem part_of_reads (h : Reads (startPart offset origin stack string n) xs (.done v)) :
    ∃ bs rest offset', xs = bs ++ rest ∧ bs.length = n ∧
      Reads (endPart offset' origin stack { string with text := string.text ++ bs }) rest
        (.done v) := by
  cases n with
  | zero =>
    refine ⟨[], xs, offset, rfl, rfl, ?_⟩
    rw [List.append_nil]
    exact h
  | succ more => exact piece_of_reads h

/-- **The parts of a text are read** to where it ends. -/
theorem parts_of_reads (hpurpose : purpose.isText = true)
    (h : Reads (.more ⟨stack, .first (.part ⟨purpose, text, nesting + 1⟩), offset⟩) xs (.done v)) :
    ∃ parts rest bs offset' origin', xs = parts ++ rest ∧ Parts (nesting + 1) parts bs ∧
      Reads (endString offset' origin' stack ⟨purpose, text ++ bs, 0⟩) rest (.done v) := by
  induction hbound : xs.length using Nat.strongRecOn generalizing xs text nesting offset with
  | ind bound ih =>
    obtain ⟨octets, rest, head, start, offset, rfl, hhead, hread⟩ := heads_of_reads h
    have hpos := hhead.length_pos
    rw [List.length_append] at hbound
    simp only [takeHeader] at hread
    cases head with
    | stop =>
      simp only [takePart, endPart, Nat.add_sub_cancel] at hread
      cases nesting with
      | zero =>
        have hparts := Parts.stop hhead .done
        rw [List.append_nil] at hparts
        refine ⟨octets, rest, [], offset, start, rfl, hparts, ?_⟩
        rw [List.append_nil]
        exact hread
      | succ nesting =>
        obtain ⟨parts, later, bs, offset', origin', rfl, hparts, hread⟩ :=
          ih rest.length (by omega) hread rfl
        exact ⟨octets ++ parts, later, bs, offset', origin', by rw [List.append_assoc],
          .stop hhead hparts, hread⟩
    | text length =>
      simp only [takePart, hpurpose, if_true] at hread
      cases length with
      | none =>
        obtain ⟨parts, later, bs, offset', origin', rfl, hparts, hread⟩ :=
          ih rest.length (by omega) hread rfl
        exact ⟨octets ++ parts, later, bs, offset', origin', by rw [List.append_assoc],
          .opened hhead hparts, hread⟩
      | some n =>
        obtain ⟨bs, later, offset', rfl, rfl, hpart⟩ := part_of_reads hread
        rw [List.length_append] at hbound
        obtain ⟨parts, last, bs', offset', origin', rfl, hparts, hlast⟩ :=
          ih later.length (by omega) hpart rfl
        rw [List.append_assoc] at hlast
        exact ⟨octets ++ (bs ++ parts), last, bs ++ bs', offset', origin', by simp,
          .part hhead hparts, hlast⟩
    | octets length =>
      simp only [takePart, hpurpose, if_true] at hread
      exact absurd hread (not_reads_failed _)
    | positive | negative | array | map | tag | simple | real =>
      exact absurd hread (not_reads_failed _)

/-- **A text is read** behind its header. -/
theorem runs_of_reads (hpurpose : purpose.isText = true)
    (h : Reads (startString offset origin stack purpose length) xs (.done v)) :
    ∃ run rest bs offset' origin', xs = run ++ rest ∧ Runs length run bs ∧
      Reads (endString offset' origin' stack ⟨purpose, bs, 0⟩) rest (.done v) := by
  cases length with
  | none =>
    obtain ⟨parts, rest, bs, offset', origin', rfl, hparts, hread⟩ := parts_of_reads hpurpose h
    exact ⟨parts, rest, bs, offset', origin', rfl, .parts hparts, hread⟩
  | some n =>
    obtain ⟨bs, rest, offset', rfl, hbs, hread⟩ := part_of_reads h
    exact ⟨bs, rest, bs, offset', origin, rfl, .whole hbs, hread⟩

/-- No value comes of the parts of a string of octets. -/
theorem not_reads_octetParts :
    ¬ Reads (.more ⟨stack, .first (.part ⟨.octets, text, nesting + 1⟩), offset⟩) xs (.done v) := by
  intro h
  induction hbound : xs.length using Nat.strongRecOn generalizing xs text nesting offset with
  | ind bound ih =>
    obtain ⟨octets, rest, head, start, offset, rfl, hhead, hread⟩ := heads_of_reads h
    have hpos := hhead.length_pos
    rw [List.length_append] at hbound
    cases head with
    | stop =>
      cases nesting with
      | zero => exact not_reads_failed _ hread
      | succ nesting => exact ih rest.length (by omega) hread rfl
    | octets length =>
      cases length with
      | none => exact ih rest.length (by omega) hread rfl
      | some n =>
        obtain ⟨bs, later, offset', rfl, -, hpart⟩ := part_of_reads hread
        rw [List.length_append] at hbound
        exact ih later.length (by omega) hpart rfl
    | positive | negative | text | array | map | tag | simple | real =>
      exact not_reads_failed _ hread

/-- **A string of octets is no value.** -/
theorem not_reads_octets :
    ¬ Reads (startString offset origin stack .octets length) xs (.done v) := by
  intro h
  cases length with
  | none => exact not_reads_octetParts h
  | some n =>
    obtain ⟨bs, rest, offset', rfl, -, hread⟩ := part_of_reads h
    exact not_reads_failed _ hread

/-- Behind a tag, only a large integer is read. -/
theorem bignum_of_reads (h : Reads (takeTagged start offset stack tag head) xs (.done v)) :
    ∃ bs rest n offset', head = .octets (some bs.length) ∧
      (tag = positiveBignum ∨ tag = negativeBignum) ∧ xs = bs ++ rest ∧
      bignum (tag = negativeBignum) bs = .ok n ∧
      Reads (settle offset' stack (.number n)) rest (.done v) := by
  have hother : ¬ Reads (if maxDepth ≤ stack.length then .failed .tooDeep else .failed .tagged) xs
      (.done v) := by
    split
    · exact not_reads_failed _
    · exact not_reads_failed _
  unfold takeTagged at h
  simp only at h
  split at h
  · split at h
    · rename_i length hcond
      obtain ⟨bs, rest, offset', rfl, rfl, hread⟩ := part_of_reads h
      simp only [endPart, endString, if_true, List.nil_append] at hread
      split at hread
      · rename_i n hn
        exact ⟨bs, rest, n, offset', rfl, hcond.1, rfl, hn, hread⟩
      · exact absurd hread (not_reads_failed _)
    · exact absurd h hother
  · exact absurd h hother

/-! ## Keys -/

/-- **A key is read** where one is asked for, or else the end of the map. -/
theorem names_of_reads
    (h : Reads (.more ⟨stack, .first (.key found length plain), offset⟩) xs (.done v)) :
    (∃ name key rest offset', xs = name ++ rest ∧ Names name key ∧
      Reads (.more ⟨.map found key length :: stack, .first .value, offset'⟩) rest (.done v)) ∨
    (∃ octets rest offset', plain = true ∧ length = none ∧ xs = octets ++ rest ∧
      Heads octets .stop ∧ Reads (settle offset' stack (.object found)) rest (.done v)) := by
  induction hbound : xs.length using Nat.strongRecOn generalizing xs plain offset with
  | ind bound ih =>
    obtain ⟨octets, rest, head, start, offset, rfl, hhead, hread⟩ := heads_of_reads h
    have hpos := hhead.length_pos
    rw [List.length_append] at hbound
    have htext {origin : Nat} {shape : Option Nat} (hshape : head = .text shape)
        (hstring : Reads (startString offset origin stack (.key found length) shape) rest
          (.done v)) :
        ∃ name key later offset', octets ++ rest = name ++ later ∧ Names name key ∧
          Reads (.more ⟨.map found key length :: stack, .first .value, offset'⟩) later
            (.done v) := by
      obtain ⟨run, later, bs, offset', origin', rfl, hrun, hend⟩ := runs_of_reads rfl hstring
      simp only [endString] at hend
      split at hend
      · rename_i key hkey
        rw [hshape] at hhead
        exact ⟨octets ++ run, key, later, offset', by rw [List.append_assoc],
          .text hhead hrun hkey, hend⟩
      · exact absurd hend (not_reads_failed _)
    simp only [takeHeader] at hread
    cases head with
    | tag n =>
      -- behind a tag no map ends, so there is a key
      obtain ⟨name, key, later, offset', rfl, hname, hlater⟩ | ⟨_, _, _, hplain, _⟩ :=
        ih rest.length (by omega) hread rfl
      · exact .inl ⟨octets ++ name, key, later, offset', by rw [List.append_assoc],
          .tagged hhead hname, hlater⟩
      · cases hplain
    | stop =>
      simp only [takeKey] at hread
      split at hread
      · rename_i hend
        rw [Bool.and_eq_true, Option.isNone_iff_eq_none] at hend
        exact .inr ⟨octets, rest, offset, hend.1, hend.2, rfl, hhead, hread⟩
      · exact absurd hread (not_reads_failed _)
    | text shape =>
      refine .inl ?_
      simp only [takeKey] at hread
      split at hread
      · split at hread
        · split at hread
          · exact htext rfl hread
          · exact absurd hread (not_reads_failed _)
        · exact absurd hread (not_reads_failed _)
      · exact htext rfl hread
    | positive | negative | octets | array | map | simple | real =>
      exact absurd hread (not_reads_failed _)

/-! ## Values -/

/-- A value stands at the front of the octets, and the run goes on behind it. -/
def Fronts (stack : List Open) (xs : Bytes) (v : Value) : Prop :=
  ∃ text rest w offset, xs = text ++ rest ∧ Spells text (.value w) ∧
    Reads (settle offset stack w.sorted) rest (.done v)

/-- What is left of a value behind its header stands at the front of the octets, and the run goes on
behind it. -/
def Follows (head : Header) (stack : List Open) (xs : Bytes) (v : Value) : Prop :=
  ∃ text rest w offset, xs = text ++ rest ∧ Spells text (.behind head w) ∧
    Reads (settle offset stack w.sorted) rest (.done v)

/-- Wherever a header has been read as that of a value, with fewer than so many octets behind it,
the value follows. -/
def FollowsBelow (bound : Nat) (v : Value) : Prop :=
  ∀ xs, xs.length < bound → ∀ head stack offset,
    Reads (takeValue offset stack head) xs (.done v) → Follows head stack xs v

/-- **A value is read** where one is asked for. -/
theorem fronts_of_reads (hbelow : FollowsBelow bound v) (hlength : xs.length ≤ bound)
    (h : Reads (.more ⟨stack, .first .value, offset⟩) xs (.done v)) : Fronts stack xs v := by
  obtain ⟨octets, rest, head, start, offset, rfl, hhead, hread⟩ := heads_of_reads h
  have hpos := hhead.length_pos
  rw [List.length_append] at hlength
  obtain ⟨text, later, w, offset', rfl, hspells, hlater⟩ :=
    hbelow rest (by omega) head stack offset hread
  exact ⟨octets ++ text, later, w, offset', by rw [List.append_assoc], .value hhead hspells, hlater⟩

/-! ## Arrays -/

/-- **So many items are read** as there are to come. -/
theorem items_of_reads (hbelow : FollowsBelow bound v) (hlength : xs.length ≤ bound)
    (h : Reads (.more ⟨.array done (some left) :: stack, .first .value, offset⟩) xs (.done v)) :
    ∃ items rest ws offset', xs = items ++ rest ∧ Spells items (.items (some (left + 1)) ws) ∧
      Reads (settle offset' stack (.array (done.reverse ++ Value.sortedItems ws))) rest
        (.done v) := by
  induction left generalizing xs done offset with
  | zero =>
    obtain ⟨text, rest, w, offset, rfl, hspells, hread⟩ := fronts_of_reads hbelow hlength h
    have hitems := Spells.item hspells .noItems
    rw [List.append_nil] at hitems
    rw [settle, List.reverse_cons] at hread
    exact ⟨text, rest, [w], offset, rfl, hitems, hread⟩
  | succ left ih =>
    obtain ⟨text, rest, w, offset, rfl, hspells, hread⟩ := fronts_of_reads hbelow hlength h
    rw [List.length_append] at hlength
    obtain ⟨items, later, ws, offset', rfl, hitems, hlater⟩ := ih (by omega) hread
    rw [List.reverse_cons, List.append_assoc] at hlater
    exact ⟨text ++ items, later, w :: ws, offset', by rw [List.append_assoc],
      .item hspells hitems, hlater⟩

/-- **Items are read** up to their end. -/
theorem openItems_of_reads (hbelow : FollowsBelow bound v) (hlength : xs.length ≤ bound)
    (h : Reads (.more ⟨.array done none :: stack, .first .item, offset⟩) xs (.done v)) :
    ∃ items rest ws offset', xs = items ++ rest ∧ Spells items (.items none ws) ∧
      Reads (settle offset' stack (.array (done.reverse ++ Value.sortedItems ws))) rest
        (.done v) := by
  induction hlen : xs.length using Nat.strongRecOn generalizing xs done offset with
  | ind len ih =>
    obtain ⟨octets, rest, head, start, offset, rfl, hhead, hread⟩ := heads_of_reads h
    have hpos := hhead.length_pos
    rw [List.length_append] at hlength hlen
    by_cases hstop : head = .stop
    · subst hstop
      refine ⟨octets, rest, [], offset, rfl, .lastItem hhead, ?_⟩
      rw [Value.sortedItems, List.append_nil]
      exact hread
    · have hvalue : Reads (takeValue offset (.array done none :: stack) head) rest (.done v) := by
        cases head with
        | stop => exact absurd rfl hstop
        | _ => exact hread
      obtain ⟨text, later, w, offset', rfl, hspells, hlater⟩ :=
        hbelow rest (by omega) head _ offset hvalue
      rw [List.length_append] at hlength hlen
      obtain ⟨items, last, ws, offset', rfl, hitems, hlast⟩ :=
        ih later.length (by omega) (by omega) hlater rfl
      rw [List.reverse_cons, List.append_assoc] at hlast
      exact ⟨octets ++ text ++ items, last, w :: ws, offset', by simp,
        .nextItem (.value hhead hspells) hitems, hlast⟩

/-! ## Maps -/

/-- **So many entries are read** as there are to come. -/
theorem entries_of_reads (hbelow : FollowsBelow bound v) (hlength : xs.length ≤ bound)
    (h : Reads (.more ⟨stack, .first (.key found (some left) plain), offset⟩) xs (.done v)) :
    ∃ entries rest es offset', xs = entries ++ rest ∧
      Spells entries (.entries (some (left + 1)) es) ∧
      Reads (settle offset' stack (.object (Value.sortedEntries es found))) rest (.done v) := by
  induction left generalizing xs found plain offset with
  | zero =>
    obtain ⟨name, key, behind, offset, rfl, hname, hvalue⟩ | ⟨_, _, _, _, hnone, _⟩ :=
      names_of_reads h
    · rw [List.length_append] at hlength
      obtain ⟨text, rest, w, offset, rfl, hspells, hread⟩ :=
        fronts_of_reads hbelow (by omega) hvalue
      have hentries := Spells.entry hname hspells .noEntries
      rw [List.append_nil] at hentries
      exact ⟨name ++ text, rest, [(key, w)], offset, by rw [List.append_assoc], hentries, hread⟩
    · cases hnone
  | succ left ih =>
    obtain ⟨name, key, behind, offset, rfl, hname, hvalue⟩ | ⟨_, _, _, _, hnone, _⟩ :=
      names_of_reads h
    · rw [List.length_append] at hlength
      obtain ⟨text, rest, w, offset, rfl, hspells, hread⟩ :=
        fronts_of_reads hbelow (by omega) hvalue
      rw [List.length_append] at hlength
      obtain ⟨entries, later, es, offset', rfl, hentries, hlater⟩ := ih (by omega) hread
      exact ⟨name ++ (text ++ entries), later, (key, w) :: es, offset', by simp,
        .entry hname hspells hentries, hlater⟩
    · cases hnone

/-- **Entries are read** up to their end. -/
theorem openEntries_of_reads (hbelow : FollowsBelow bound v) (hlength : xs.length ≤ bound)
    (h : Reads (.more ⟨stack, .first (.key found none plain), offset⟩) xs (.done v)) :
    ∃ entries rest es offset', xs = entries ++ rest ∧ Spells entries (.entries none es) ∧
      Reads (settle offset' stack (.object (Value.sortedEntries es found))) rest (.done v) := by
  induction hlen : xs.length using Nat.strongRecOn generalizing xs found plain offset with
  | ind len ih =>
    obtain ⟨name, key, behind, offset, rfl, hname, hvalue⟩ |
      ⟨octets, rest, offset, -, -, rfl, hstop, hread⟩ := names_of_reads h
    · have hpos := hname.length_pos
      rw [List.length_append] at hlength hlen
      obtain ⟨text, rest, w, offset, rfl, hspells, hread⟩ :=
        fronts_of_reads hbelow (by omega) hvalue
      rw [List.length_append] at hlength hlen
      obtain ⟨entries, later, es, offset', rfl, hentries, hlater⟩ :=
        ih rest.length (by omega) (by omega) hread rfl
      exact ⟨name ++ (text ++ entries), later, (key, w) :: es, offset', by simp,
        .nextEntry hname hspells hentries, hlater⟩
    · exact ⟨octets, rest, [], offset, rfl, .lastEntry hstop, hread⟩

/-! ## Items of the whole input -/

/-- The items of an array follow its header. -/
theorem follows_of_startArray (hbelow : FollowsBelow bound v) (hlength : xs.length ≤ bound)
    {count : Option Nat} (h : Reads (startArray offset stack count) xs (.done v)) :
    Follows (.array count) stack xs v := by
  unfold startArray at h
  split at h
  · exact absurd h (not_reads_failed _)
  · split at h
    · exact ⟨[], xs, .array [], offset, rfl, .array .noItems, h⟩
    · obtain ⟨items, rest, ws, offset', rfl, hitems, hrest⟩ := items_of_reads hbelow hlength h
      exact ⟨items, rest, .array ws, offset', rfl, .array hitems, hrest⟩
    · obtain ⟨items, rest, ws, offset', rfl, hitems, hrest⟩ := openItems_of_reads hbelow hlength h
      exact ⟨items, rest, .array ws, offset', rfl, .array hitems, hrest⟩

/-- The entries of a map follow its header. -/
theorem follows_of_startMap (hbelow : FollowsBelow bound v) (hlength : xs.length ≤ bound)
    {count : Option Nat} (h : Reads (startMap offset stack count) xs (.done v)) :
    Follows (.map count) stack xs v := by
  unfold startMap at h
  split at h
  · exact absurd h (not_reads_failed _)
  · split at h
    · exact ⟨[], xs, .object [], offset, rfl, .map .noEntries, h⟩
    · obtain ⟨entries, rest, es, offset', rfl, hentries, hrest⟩ :=
        entries_of_reads hbelow hlength h
      exact ⟨entries, rest, .object es, offset', rfl, .map hentries, hrest⟩
    · obtain ⟨entries, rest, es, offset', rfl, hentries, hrest⟩ :=
        openEntries_of_reads hbelow hlength h
      exact ⟨entries, rest, .object es, offset', rfl, .map hentries, hrest⟩

/-- A header with a value of its own has nothing behind it. -/
theorem follows_of_scalar (hscalar : head.scalar? = some w)
    (h : Reads (settle offset stack w.sorted) xs (.done v)) : Follows head stack xs v :=
  ⟨[], xs, w, offset, rfl, .scalar hscalar, h⟩

/-- **What is left of a value is read** behind its header, with any number of octets behind it. -/
theorem followsBelow (bound : Nat) (v : Value) : FollowsBelow bound v := by
  induction bound with
  | zero => exact fun xs hlength => absurd hlength (Nat.not_lt_zero _)
  | succ bound ih =>
    -- one case for each header; the header of an item inside leaves fewer octets behind it
    intro xs hlength head stack offset h
    have hshort : xs.length ≤ bound := by omega
    cases head with
    | positive n => exact follows_of_scalar rfl h
    | negative n =>
      rw [takeValue] at h
      split at h
      · rename_i hn
        exact follows_of_scalar (by rw [Header.scalar?, dif_pos hn]) h
      · exact absurd h (not_reads_failed _)
    | octets length => exact absurd h not_reads_octets
    | text length =>
      obtain ⟨run, rest, bs, offset', origin, rfl, hrun, hread⟩ := runs_of_reads rfl h
      simp only [endString] at hread
      split at hread
      · rename_i s hs
        exact ⟨run, rest, .string s, offset', rfl, .text hrun hs, hread⟩
      · exact absurd hread (not_reads_failed _)
    | array count => exact follows_of_startArray ih hshort h
    | map count => exact follows_of_startMap ih hshort h
    | tag n =>
      obtain ⟨octets, rest, head, start, offset, rfl, hhead, hread⟩ := heads_of_reads h
      obtain ⟨bs, later, k, offset', rfl, htag, rfl, hk, hlater⟩ := bignum_of_reads hread
      exact ⟨octets ++ bs, later, .number k, offset', by rw [List.append_assoc],
        .bignum htag hhead hk, hlater⟩
    | simple n =>
      rw [takeValue] at h
      split at h
      · rename_i hn
        exact follows_of_scalar (by rw [Header.scalar?, if_pos hn]) h
      · rename_i hfalse
        split at h
        · rename_i hn
          exact follows_of_scalar (by rw [Header.scalar?, if_neg hfalse, if_pos hn]) h
        · rename_i htrue
          split at h
          · rename_i hn
            exact follows_of_scalar
              (by rw [Header.scalar?, if_neg hfalse, if_neg htrue, if_pos hn]) h
          · exact absurd h (not_reads_failed _)
    | real x =>
      have hsorted : (if x.isFinite then Value.number (.real x) else .null) =
          (if x.isFinite then Value.number (.real x) else .null).sorted := by
        split
        · rfl
        · rfl
      rw [takeValue, hsorted] at h
      exact follows_of_scalar rfl h
    | stop => exact absurd h (not_reads_failed _)

/-- **Nothing else is read**: an item that is read spells a value. -/
theorem spells_of_parse (h : parse item = .ok v) :
    ∃ w, Spells item (.value w) ∧ w.sorted = v := by
  obtain ⟨text, rest, w, offset, rfl, hspells, hread⟩ :=
    fronts_of_reads (followsBelow item.length v) (Nat.le_refl _) (parse_eq_ok_iff.1 h)
  obtain ⟨rfl, rfl⟩ := Reads.of_done hread
  rw [List.append_nil]
  exact ⟨w, hspells, rfl⟩

/-- **What is read is the value that the item spells**, with its entries in the order of their
keys. -/
theorem parse_eq_sorted_of_spells (h : parse item = .ok v) (hspells : Spells item (.value w)) :
    v = w.sorted := by
  obtain ⟨w', hspells', rfl⟩ := spells_of_parse h
  obtain ⟨rfl, -⟩ := hspells'.unique hspells (congrArg (· ++ []) rfl)
  rfl

end WarcStream.Cbor
