import WarcStream.Proofs.Json.Grammar
/-!
# Nothing else is a JSON text

Whatever the machine reads follows the grammar. `State.Means` is a run that comes
to a value, octet by octet; wherever such a run is about to read a part of a
text, the part is there at the front of the octets to come, and the run goes on
behind it (`means_string`, `items_of_means`, `entries_of_means`, `startsBelow`).
With the other half, the reader and the grammar agree on every text
(`parse_eq_ok_iff`).
-/

namespace WarcStream.Json

variable {stack : List Open} {s t : State} {xs rest text word : Bytes} {b : UInt8} {v w : Value}
variable {found : List (String × Value)} {done : List Value} {n : Numeral} {role : Role}
variable {depth bound : Nat}

/-! ## Runs -/

/-- From this state, the octets to come mean the value. -/
def State.Means : State → Bytes → Value → Prop
  | s, [], v => s.finish = .ok v
  | s, b :: rest, v => ∃ t, s.step b = .ok t ∧ t.Means rest v

theorem means_of_run {consumed : Nat} (hrun : s.run xs consumed = .ok t)
    (hfinish : t.finish = .ok v) : s.Means xs v := by
  induction xs generalizing s consumed with
  | nil =>
    obtain rfl := Except.ok.inj hrun
    exact hfinish
  | cons b rest ih =>
    rw [State.run] at hrun
    split at hrun
    · rename_i next hstep
      exact ⟨next, hstep, ih hrun⟩
    · cases hrun

theorem means_of_parse (h : parse text = .ok v) : State.start.Means text v := by
  unfold parse at h
  split at h
  · cases h
  · rename_i s hrun
    split at h
    · rename_i w hfinish
      obtain rfl := Except.ok.inj h
      exact means_of_run hrun hfinish
    · cases h

/-! ## Blanks -/

/-- Where blanks change nothing, they may stand in front of what is read. -/
theorem means_of_blanks {blanks : Bytes} (hs : ∀ b, isSpace b = true → s.step b = .ok s)
    (hblanks : Blank blanks) (h : s.Means rest v) : s.Means (blanks ++ rest) v := by
  induction blanks with
  | nil => exact h
  | cons b blanks ih =>
    have hb := hblanks b List.mem_cons_self
    exact ⟨s, hs b hb, ih fun c hc => hblanks c (List.mem_cons_of_mem b hc)⟩

/-- Where blanks change nothing and a text does not end, another octet comes behind them. -/
theorem exists_behind_blanks (hs : ∀ b, isSpace b = true → s.step b = .ok s)
    (hend : s.finish ≠ .ok v) (h : s.Means xs v) :
    ∃ blanks b rest t, xs = blanks ++ b :: rest ∧ Blank blanks ∧ isSpace b = false ∧
      s.step b = .ok t ∧ t.Means rest v := by
  induction xs with
  | nil => exact absurd h hend
  | cons b rest ih =>
    obtain ⟨t, hstep, hrest⟩ := h
    cases hb : isSpace b with
    | false => exact ⟨[], b, rest, t, rfl, blank_nil, hb, hstep, hrest⟩
    | true =>
      rw [hs b hb] at hstep
      obtain rfl := Except.ok.inj hstep
      obtain ⟨blanks, c, later, t, rfl, hblanks, hc, hstep, hlater⟩ := ih hrest
      exact ⟨b :: blanks, c, later, t, rfl, List.forall_mem_cons.2 ⟨hb, hblanks⟩, hc, hstep, hlater⟩

/-! ## Numbers and words -/

/-- A number is read up to where it may end. -/
theorem means_number {seen : Bytes} (hn : n.Spells seen)
    (h : State.Means ⟨stack, .number n⟩ xs v) :
    ∃ text rest m k, xs = text ++ rest ∧ Numeral.Spells (seen ++ text) m ∧ m.finish = .ok k ∧
      (settle stack (.number k)).Means rest v := by
  induction xs generalizing n seen with
  | nil =>
    simp only [State.Means, State.finish] at h
    split at h
    · cases h
    · rename_i k hfinish
      refine ⟨[], [], n, k, rfl, by rwa [List.append_nil], hfinish, ?_⟩
      cases stack with
      | nil => exact h
      | cons top _ => cases top <;> cases h
  | cons b rest ih =>
    obtain ⟨t, hstep, hrest⟩ := h
    simp only [State.step] at hstep
    split at hstep
    · rename_i next hnext
      obtain rfl := Except.ok.inj hstep
      obtain ⟨text, later, m, k, rfl, hspells, hfinish, hlater⟩ := ih (hn.more hnext) hrest
      rw [List.append_assoc] at hspells
      exact ⟨b :: text, later, m, k, rfl, hspells, hfinish, hlater⟩
    · cases hstep
    · split at hstep
      · rename_i k hfinish
        refine ⟨[], b :: rest, n, k, rfl, by rwa [List.append_nil], hfinish, t, ?_, hrest⟩
        rw [step_settle]
        exact hstep
      · cases hstep

/-- The rest of a word is read as it is. -/
theorem means_word (hword : word ≠ []) (h : State.Means ⟨stack, .word word w⟩ xs v) :
    ∃ rest, xs = word ++ rest ∧ (settle stack w).Means rest v := by
  induction word generalizing xs with
  | nil => exact absurd rfl hword
  | cons next word ih =>
    match xs with
    | [] => cases h
    | b :: xs =>
      obtain ⟨t, hstep, hrest⟩ := h
      match word with
      | [] =>
        simp only [State.step] at hstep
        split at hstep
        · rename_i hb
          obtain rfl := Except.ok.inj hstep
          exact ⟨xs, by rw [hb]; rfl, hrest⟩
        · cases hstep
      | last :: word =>
        simp only [State.step] at hstep
        split at hstep
        · rename_i hb
          obtain rfl := Except.ok.inj hstep
          obtain ⟨rest, rfl, hsettled⟩ := ih (by simp) hrest
          exact ⟨rest, by rw [hb]; rfl, hsettled⟩
        · cases hstep

/-! ## Strings -/

/-- Four digits are read to the end of the code unit. -/
theorem means_digits {lead : Option Nat} (h : State.Means ⟨stack, .unit role text lead []⟩ xs v) :
    ∃ digits rest value t, xs = digits ++ rest ∧ digits.length = 4 ∧
      unitValue? digits = some value ∧ endUnit stack role text lead value = .ok t ∧
      t.Means rest v := by
  match xs with
  | [] => cases h
  | [a] =>
    obtain ⟨_, ⟨rfl⟩, h⟩ := h
    cases h
  | [a, b] =>
    obtain ⟨_, ⟨rfl⟩, _, ⟨rfl⟩, h⟩ := h
    cases h
  | [a, b, c] =>
    obtain ⟨_, ⟨rfl⟩, _, ⟨rfl⟩, _, ⟨rfl⟩, h⟩ := h
    cases h
  | a :: b :: c :: d :: rest =>
    obtain ⟨_, ⟨rfl⟩, _, ⟨rfl⟩, _, ⟨rfl⟩, t, hstep, h⟩ := h
    simp only [State.step, List.length_cons, List.length_nil, List.reverse_cons, List.reverse_nil,
      List.nil_append, List.cons_append, Nat.reduceAdd, Nat.lt_irrefl, if_false] at hstep
    split at hstep
    · rename_i value hvalue
      exact ⟨[a, b, c, d], rest, value, t, rfl, rfl, hvalue, hstep, h⟩
    · cases hstep

/-- The octets stand for these between quotes, whatever comes behind them. -/
def Escapes (piece octets : Bytes) : Prop :=
  ∀ xs bs, Unescapes xs bs → Unescapes (piece ++ xs) (octets ++ bs)

/-- Behind a leading surrogate, the trailing one is read. -/
theorem means_pair {lead : Nat} (h : State.Means ⟨stack, .pair role text lead false⟩ xs v) :
    ∃ digits rest trail, xs = 0x5c :: 0x75 :: (digits ++ rest) ∧ digits.length = 4 ∧
      unitValue? digits = some trail ∧ isTrail trail = true ∧
      State.Means ⟨stack, .string role
        ((codePoint ((lead - 0xd800) * 0x400 + (trail - 0xdc00) + 0x10000)).reverse ++ text)⟩
        rest v := by
  match xs with
  | [] => cases h
  | [b] =>
    obtain ⟨t, hstep, hrest⟩ := h
    simp only [State.step, Bool.false_eq_true, if_false] at hstep
    split at hstep
    · obtain rfl := Except.ok.inj hstep
      cases hrest
    · cases hstep
  | b :: c :: xs =>
    obtain ⟨t, hstep, u, hnext, hrest⟩ := h
    simp only [State.step, Bool.false_eq_true, if_false] at hstep
    split at hstep
    · rename_i hb
      obtain rfl := Except.ok.inj hstep
      simp only [State.step, if_true] at hnext
      split at hnext
      · rename_i hc
        obtain rfl := Except.ok.inj hnext
        obtain ⟨digits, rest, trail, t, rfl, hlength, hvalue, hend, hmeans⟩ := means_digits hrest
        simp only [endUnit] at hend
        split at hend
        · rename_i htrail
          obtain rfl := Except.ok.inj hend
          exact ⟨digits, rest, trail, by rw [hb, hc], hlength, hvalue, htrail, hmeans⟩
        · cases hend
      · cases hnext
    · cases hstep

/-- Behind a backslash, the escape is read to its end. -/
theorem means_escape (h : State.Means ⟨stack, .escape role text⟩ xs v) :
    ∃ piece octets rest, xs = piece ++ rest ∧ piece ≠ [] ∧ Escapes (0x5c :: piece) octets ∧
      State.Means ⟨stack, .string role (octets.reverse ++ text)⟩ rest v := by
  match xs with
  | [] => cases h
  | b :: xs =>
    obtain ⟨t, hstep, hrest⟩ := h
    simp only [State.step] at hstep
    split at hstep
    · rename_i hb
      obtain rfl := Except.ok.inj hstep
      obtain ⟨digits, rest, n, t, rfl, hlength, hvalue, hend, hmeans⟩ := means_digits hrest
      simp only [endUnit] at hend
      split at hend
      · cases hend
      · rename_i htrail
        rw [Bool.not_eq_true] at htrail
        split at hend
        · rename_i hlead
          obtain rfl := Except.ok.inj hend
          obtain ⟨digits', rest, n', rfl, hlength', hvalue', htrail', hmeans⟩ := means_pair hmeans
          refine ⟨b :: (digits ++ 0x5c :: 0x75 :: digits'), _, rest, by simp, by simp, ?_, hmeans⟩
          intro xs bs hxs
          have hpair := Unescapes.pair hlength hvalue hlead hlength' hvalue' htrail' hxs
          simpa [hb] using hpair
        · rename_i hlead
          rw [Bool.not_eq_true] at hlead
          obtain rfl := Except.ok.inj hend
          refine ⟨b :: digits, _, rest, rfl, by simp, ?_, hmeans⟩
          intro xs bs hxs
          rw [hb]
          exact .unit hlength hvalue htrail hlead hxs
    · split at hstep
      · rename_i c hletter
        obtain rfl := Except.ok.inj hstep
        exact ⟨[b], [c], xs, rfl, by simp, fun _ _ hxs => .letter hletter hxs, hrest⟩
      · cases hstep

/-- **A string is read** up to its closing quote. -/
theorem means_string (h : State.Means ⟨stack, .string role text⟩ xs v) :
    ∃ inner bs rest t, xs = inner ++ 0x22 :: rest ∧ Unescapes inner bs ∧
      endString stack role (bs.reverse ++ text) = .ok t ∧ t.Means rest v := by
  induction hbound : xs.length using Nat.strongRecOn generalizing xs text with
  | ind bound ih =>
    -- what is left behind one octet or one escape is shorter
    have hmore {piece octets later : Bytes} (hpiece : Escapes piece octets)
        (hlength : later.length < bound)
        (hlater : State.Means ⟨stack, .string role (octets.reverse ++ text)⟩ later v) :
        ∃ inner bs rest t, piece ++ later = inner ++ 0x22 :: rest ∧ Unescapes inner bs ∧
          endString stack role (bs.reverse ++ text) = .ok t ∧ t.Means rest v := by
      obtain ⟨inner, bs, rest, t, rfl, hinner, hend, hrest⟩ := ih _ hlength hlater rfl
      rw [← List.append_assoc, ← List.reverse_append] at hend
      exact ⟨piece ++ inner, octets ++ bs, rest, t, by simp, hpiece inner bs hinner, hend, hrest⟩
    match xs with
    | [] => cases h
    | b :: xs =>
      obtain ⟨t, hstep, hrest⟩ := h
      rw [List.length_cons] at hbound
      simp only [State.step] at hstep
      split at hstep
      · rename_i hquote
        exact ⟨[], [], xs, t, by rw [hquote]; rfl, .nil, hstep, hrest⟩
      · rename_i hquote
        split at hstep
        · rename_i hbackslash
          obtain rfl := Except.ok.inj hstep
          obtain ⟨piece, octets, later, rfl, hpiece, hescapes, hlater⟩ := means_escape hrest
          have hlength := List.length_pos_iff.2 hpiece
          rw [List.length_append] at hbound
          have hread := hmore hescapes (by omega) hlater
          rwa [← hbackslash] at hread
        · rename_i hbackslash
          split at hstep
          · cases hstep
          · rename_i hlow
            obtain rfl := Except.ok.inj hstep
            have hplain : Escapes [b] [b] := fun _ _ hxs =>
              .plain hquote hbackslash hlow hxs
            exact hmore hplain (by omega) hrest

/-! ## Values -/

/-- A value stands at the front of the octets with the blanks behind it, and the run goes on
there. -/
def Fronts (depth : Nat) (stack : List Open) (xs : Bytes) (v : Value) : Prop :=
  ∃ text rest w, xs = text ++ rest ∧ Spells depth text (.value w) ∧
    (∀ b ∈ rest.head?, isSpace b = false) ∧ (settle stack w.sorted).Means rest v

/-- Blanks behind a value belong to it. -/
theorem fronts_of_spells (h : Spells depth text (.value w))
    (hmeans : (settle stack w.sorted).Means rest v) : Fronts depth stack (text ++ rest) v := by
  induction rest generalizing text with
  | nil => exact ⟨text, [], w, rfl, h, by simp, hmeans⟩
  | cons b rest ih =>
    cases hb : isSpace b with
    | false => exact ⟨text, b :: rest, w, rfl, h, by simpa using hb, hmeans⟩
    | true =>
      -- the blank leaves the run where it is, so it may as well belong to the value
      obtain ⟨t, hstep, hrest⟩ := hmeans
      have hsettled : Settled stack w.sorted (settle stack w.sorted) := .inl rfl
      rw [hsettled.blank hb] at hstep
      obtain rfl := Except.ok.inj hstep
      have hfronts := ih (h.behind hb) hrest
      rwa [List.append_assoc] at hfronts

/-- A value must start inside these containers. -/
structure State.MustStart (stack : List Open) (s : State) : Prop where
  blank : ∀ b, isSpace b = true → s.step b = .ok s
  start : ∀ b t, isSpace b = false → s.step b = .ok t → startValue stack b = .ok t
  unfinished : ∀ v, s.finish ≠ .ok v

theorem mustStart_value (stack : List Open) : State.MustStart stack ⟨stack, .value⟩ := by
  refine ⟨(atValue_value stack).blank, ?_, fun v h => by cases h⟩
  intro b t hb hstep
  simpa only [State.step, hb, Bool.false_eq_true, if_false] using hstep

theorem mustStart_listNext (stack : List Open) : State.MustStart stack ⟨stack, .listNext⟩ := by
  refine ⟨(atValue_listNext stack).blank, ?_, fun v h => by cases h⟩
  intro b t hb hstep
  simp only [State.step, hb, Bool.false_eq_true, if_false] at hstep
  split at hstep
  · cases hstep
  · exact hstep

/-- Whatever starts a value with fewer than so many octets behind it is the front of one. -/
def StartsBelow (bound : Nat) (v : Value) : Prop :=
  ∀ xs, xs.length < bound → ∀ depth stack b s, stack.length + depth = maxDepth →
    startValue stack b = .ok s → s.Means xs v → Fronts depth stack (b :: xs) v

/-- **A value is read** with the blanks around it. -/
theorem fronts_of_means (hbelow : StartsBelow bound v) (hlength : xs.length ≤ bound)
    (hdepth : stack.length + depth = maxDepth) (hs : s.MustStart stack) (h : s.Means xs v) :
    Fronts depth stack xs v := by
  obtain ⟨blanks, b, rest, t, rfl, hblanks, hb, hstep, hrest⟩ :=
    exists_behind_blanks hs.blank (hs.unfinished v) h
  rw [List.length_append, List.length_cons] at hlength
  obtain ⟨text, later, w, hsplit, hspells, hnext, hmeans⟩ :=
    hbelow rest (by omega) depth stack b t hdepth (hs.start b t hb hstep) hrest
  exact ⟨blanks ++ text, later, w, by rw [hsplit, List.append_assoc], hspells.behind_blanks hblanks,
    hnext, hmeans⟩

/-! ## Lists -/

/-- **Items are read** to the bracket behind them. -/
theorem items_of_means (hbelow : StartsBelow bound v) (hlength : xs.length ≤ bound)
    (hdepth : stack.length + 1 + depth = maxDepth)
    (h : State.Means ⟨.list done :: stack, .listNext⟩ xs v) :
    ∃ inner rest ws, xs = inner ++ 0x5d :: rest ∧ Spells depth inner (.items ws) ∧
      (settle stack (.array (done.reverse ++ Value.sortedItems ws))).Means rest v := by
  induction hlen : xs.length using Nat.strongRecOn generalizing xs done with
  | ind len ih =>
    have hinside : (Open.list done :: stack).length + depth = maxDepth := by
      rw [List.length_cons, hdepth]
    obtain ⟨text, rest, w, rfl, hspells, hnext, hmeans⟩ :=
      fronts_of_means hbelow hlength hinside (mustStart_listNext _) h
    match rest with
    | [] => cases hmeans
    | b :: rest =>
      obtain ⟨t, hstep, hrest⟩ := hmeans
      have hb : isSpace b = false := hnext b rfl
      rw [List.length_append, List.length_cons] at hlength hlen
      rw [step_settle] at hstep
      simp only [settle, between, hb, Bool.false_eq_true, if_false] at hstep
      split at hstep
      · -- behind the comma, fewer octets are left for the other items
        rename_i hcomma
        obtain rfl := Except.ok.inj hstep
        obtain ⟨inner, later, ws, rfl, hitems, hlater⟩ :=
          ih rest.length (by omega) (by omega) hrest rfl
        rw [List.reverse_cons, List.append_assoc] at hlater
        exact ⟨text ++ 0x2c :: inner, later, w :: ws, by simp [hcomma], .items hspells hitems,
          hlater⟩
      · split at hstep
        · rename_i hbracket
          obtain rfl := Except.ok.inj hstep
          rw [List.reverse_cons] at hrest
          exact ⟨text, rest, [w], by rw [hbracket], .item hspells, hrest⟩
        · cases hstep

/-- A list is empty, or its items come next. -/
theorem means_listStart (h : State.Means ⟨stack, .listStart⟩ xs v) :
    (∃ inner rest, xs = inner ++ 0x5d :: rest ∧ Blank inner ∧
      (settle stack (.array [])).Means rest v) ∨
    State.Means ⟨.list [] :: stack, .listNext⟩ xs v := by
  obtain ⟨blanks, b, rest, t, rfl, hblanks, hb, hstep, hrest⟩ :=
    exists_behind_blanks (atValue_listStart stack).blank (fun h => by cases h) h
  simp only [State.step, hb, Bool.false_eq_true, if_false] at hstep
  split at hstep
  · rename_i hbracket
    obtain rfl := Except.ok.inj hstep
    exact .inl ⟨blanks, rest, by rw [hbracket], hblanks, hrest⟩
  · -- the first item starts just as it would behind a comma
    have hnext := atValue_listNext (.list [] :: stack)
    exact .inr (means_of_blanks hnext.blank hblanks ⟨t, hnext.start b t hb hstep, hrest⟩)

/-! ## Objects -/

/-- Behind a name, its colon is read. -/
theorem means_colon {key : String} (h : State.Means ⟨stack, .afterKey found key⟩ xs v) :
    ∃ inner rest, xs = inner ++ 0x3a :: rest ∧ Blank inner ∧
      State.Means ⟨.object found key :: stack, .value⟩ rest v := by
  obtain ⟨blanks, b, rest, t, rfl, hblanks, hb, hstep, hrest⟩ :=
    exists_behind_blanks (fun b hb => by simp only [State.step, hb, if_true])
      (fun h => by cases h) h
  simp only [State.step, hb, Bool.false_eq_true, if_false] at hstep
  split at hstep
  · rename_i hcolon
    obtain rfl := Except.ok.inj hstep
    exact ⟨blanks, rest, by rw [hcolon], hblanks, hrest⟩
  · cases hstep

/-- The name of a member is read with the colon behind it. -/
theorem names_of_means (h : State.Means ⟨stack, .objectNext found⟩ xs v) :
    ∃ name key rest, xs = name ++ 0x3a :: rest ∧ Names name key ∧
      State.Means ⟨.object found key :: stack, .value⟩ rest v := by
  obtain ⟨blanks, b, rest, t, rfl, hblanks, hb, hstep, hrest⟩ :=
    exists_behind_blanks (atKey_objectNext stack found).blank (fun h => by cases h) h
  simp only [State.step, hb, Bool.false_eq_true, if_false] at hstep
  split at hstep
  · cases hstep
  · split at hstep
    · rename_i hquote
      obtain rfl := Except.ok.inj hstep
      obtain ⟨inner, bs, later, t, rfl, hinner, hend, hmeans⟩ := means_string hrest
      simp only [endString, List.append_nil, List.reverse_reverse] at hend
      split at hend
      · cases hend
      · rename_i key htext
        obtain rfl := Except.ok.inj hend
        obtain ⟨behind, last, rfl, hbehind, hlast⟩ := means_colon hmeans
        have hname : Names (blanks ++ (0x22 :: (inner ++ [0x22]) ++ behind)) key :=
          .intro hblanks (.intro hinner htext) hbehind
        exact ⟨_, key, last, by simp [hquote], hname, hlast⟩
    · cases hstep

/-- **Members are read** to the brace behind them. -/
theorem entries_of_means (hbelow : StartsBelow bound v) (hlength : xs.length ≤ bound)
    (hdepth : stack.length + 1 + depth = maxDepth)
    (h : State.Means ⟨stack, .objectNext found⟩ xs v) :
    ∃ inner rest es, xs = inner ++ 0x7d :: rest ∧ Spells depth inner (.entries es) ∧
      (settle stack (.object (Value.sortedEntries es found))).Means rest v := by
  induction hlen : xs.length using Nat.strongRecOn generalizing xs found with
  | ind len ih =>
    obtain ⟨name, key, behind, rfl, hname, hbody⟩ := names_of_means h
    rw [List.length_append, List.length_cons] at hlength hlen
    have hinside : (Open.object found key :: stack).length + depth = maxDepth := by
      rw [List.length_cons, hdepth]
    obtain ⟨text, rest, w, rfl, hspells, hnext, hmeans⟩ :=
      fronts_of_means hbelow (by omega) hinside (mustStart_value _) hbody
    match rest with
    | [] => cases hmeans
    | b :: rest =>
      obtain ⟨t, hstep, hrest⟩ := hmeans
      have hb : isSpace b = false := hnext b rfl
      rw [List.length_append, List.length_cons] at hlength hlen
      rw [step_settle] at hstep
      simp only [settle, between, hb, Bool.false_eq_true, if_false] at hstep
      split at hstep
      · rename_i hcomma
        obtain rfl := Except.ok.inj hstep
        obtain ⟨inner, later, es, rfl, hentries, hlater⟩ :=
          ih rest.length (by omega) (by omega) hrest rfl
        exact ⟨name ++ 0x3a :: (text ++ 0x2c :: inner), later, (key, w) :: es, by simp [hcomma],
          .entries hname hspells hentries, hlater⟩
      · split at hstep
        · rename_i hbrace
          obtain rfl := Except.ok.inj hstep
          exact ⟨name ++ 0x3a :: text, rest, [(key, w)], by simp [hbrace], .entry hname hspells,
            hrest⟩
        · cases hstep

/-- An object is empty, or its members come next. -/
theorem means_objectStart (h : State.Means ⟨stack, .objectStart⟩ xs v) :
    (∃ inner rest, xs = inner ++ 0x7d :: rest ∧ Blank inner ∧
      (settle stack (.object [])).Means rest v) ∨
    State.Means ⟨stack, .objectNext []⟩ xs v := by
  obtain ⟨blanks, b, rest, t, rfl, hblanks, hb, hstep, hrest⟩ :=
    exists_behind_blanks (atKey_objectStart stack).blank (fun h => by cases h) h
  simp only [State.step, hb, Bool.false_eq_true, if_false] at hstep
  split at hstep
  · rename_i hbrace
    obtain rfl := Except.ok.inj hstep
    exact .inl ⟨blanks, rest, by rw [hbrace], hblanks, hrest⟩
  · split at hstep
    · -- the first name starts just as it would behind a comma
      rename_i hquote
      obtain rfl := Except.ok.inj hstep
      have hnext := atKey_objectNext stack []
      have hname : State.Means ⟨stack, .objectNext []⟩ (b :: rest) v :=
        ⟨_, by rw [hquote]; exact hnext.start, hrest⟩
      exact .inr (means_of_blanks hnext.blank hblanks hname)
    · cases hstep

/-! ## Texts -/

/-- An opened list is the front of a value. -/
theorem fronts_of_listStart (hbelow : StartsBelow bound v) (hlength : xs.length ≤ bound)
    (hdepth : stack.length + 1 + depth = maxDepth) (h : State.Means ⟨stack, .listStart⟩ xs v) :
    Fronts (depth + 1) stack (0x5b :: xs) v := by
  rcases means_listStart h with ⟨inner, rest, rfl, hblank, hmeans⟩ | hmeans
  · have hlist : Spells (depth + 1) (0x5b :: (inner ++ [0x5d])) (.value (.array [])) :=
      .noItems hblank
    have hfronts := fronts_of_spells hlist hmeans
    simpa using hfronts
  · obtain ⟨inner, rest, ws, rfl, hitems, hrest⟩ := items_of_means hbelow hlength hdepth hmeans
    have hfronts := fronts_of_spells (.array hitems) hrest
    simpa using hfronts

/-- An opened object is the front of a value. -/
theorem fronts_of_objectStart (hbelow : StartsBelow bound v) (hlength : xs.length ≤ bound)
    (hdepth : stack.length + 1 + depth = maxDepth) (h : State.Means ⟨stack, .objectStart⟩ xs v) :
    Fronts (depth + 1) stack (0x7b :: xs) v := by
  rcases means_objectStart h with ⟨inner, rest, rfl, hblank, hmeans⟩ | hmeans
  · have hobject : Spells (depth + 1) (0x7b :: (inner ++ [0x7d])) (.value (.object [])) :=
      .noEntries hblank
    have hfronts := fronts_of_spells hobject hmeans
    simpa using hfronts
  · obtain ⟨inner, rest, es, rfl, hentries, hrest⟩ :=
      entries_of_means hbelow hlength hdepth hmeans
    have hfronts := fronts_of_spells (.object hentries) hrest
    simpa using hfronts

/-- **Whatever starts a value is the front of one**, with any number of octets behind it. -/
theorem startsBelow (bound : Nat) (v : Value) : StartsBelow bound v := by
  induction bound with
  | zero => exact fun xs hlength => absurd hlength (Nat.not_lt_zero _)
  | succ bound ih =>
    -- one case for each octet that a value starts with; inside a container fewer octets are left
    intro xs hlength depth stack b s hdepth hstart hmeans
    have hshort : xs.length ≤ bound := by omega
    unfold startValue at hstart
    split at hstart
    · rename_i hb
      obtain rfl := Except.ok.inj hstart
      obtain ⟨rest, rfl, hrest⟩ := means_word (by simp) hmeans
      rw [hb]
      exact fronts_of_spells .null hrest
    split at hstart
    · rename_i hb
      obtain rfl := Except.ok.inj hstart
      obtain ⟨rest, rfl, hrest⟩ := means_word (by simp) hmeans
      rw [hb]
      exact fronts_of_spells .yes hrest
    split at hstart
    · rename_i hb
      obtain rfl := Except.ok.inj hstart
      obtain ⟨rest, rfl, hrest⟩ := means_word (by simp) hmeans
      rw [hb]
      exact fronts_of_spells .no hrest
    split at hstart
    · rename_i hb
      obtain rfl := Except.ok.inj hstart
      obtain ⟨text, rest, m, k, rfl, hspells, hfinish, hrest⟩ := means_number .minus hmeans
      rw [hb]
      exact fronts_of_spells (.number hspells hfinish) hrest
    split at hstart
    · split at hstart
      · rename_i n hfirst
        obtain rfl := Except.ok.inj hstart
        obtain ⟨text, rest, m, k, rfl, hspells, hfinish, hrest⟩ :=
          means_number (.first hfirst) hmeans
        exact fronts_of_spells (.number hspells hfinish) hrest
      · cases hstart
    split at hstart
    · rename_i hb
      obtain rfl := Except.ok.inj hstart
      obtain ⟨inner, bs, rest, t, rfl, hinner, hend, hrest⟩ := means_string hmeans
      simp only [endString, List.append_nil, List.reverse_reverse] at hend
      split at hend
      · cases hend
      · rename_i text htext
        obtain rfl := Except.ok.inj hend
        have hstring : Spells depth (0x22 :: (inner ++ [0x22])) (.value (.string text)) :=
          .string (.intro hinner htext)
        have hfronts := fronts_of_spells hstring hrest
        rw [hb]
        simpa using hfronts
    split at hstart
    · rename_i hb
      split at hstart
      · rename_i hroom
        obtain rfl := Except.ok.inj hstart
        obtain ⟨inside, rfl⟩ : ∃ inside, depth = inside + 1 := ⟨depth - 1, by omega⟩
        rw [hb]
        exact fronts_of_listStart ih hshort (by omega) hmeans
      · cases hstart
    split at hstart
    · rename_i hb
      split at hstart
      · rename_i hroom
        obtain rfl := Except.ok.inj hstart
        obtain ⟨inside, rfl⟩ : ∃ inside, depth = inside + 1 := ⟨depth - 1, by omega⟩
        rw [hb]
        exact fronts_of_objectStart ih hshort (by omega) hmeans
      · cases hstart
    · cases hstart

/-- **Nothing else is read**: a text that is read spells a value. -/
theorem spells_of_parse (h : parse text = .ok v) :
    ∃ w, Spells maxDepth text (.value w) ∧ w.sorted = v := by
  have houter : ([] : List Open).length + maxDepth = maxDepth := Nat.zero_add _
  obtain ⟨front, rest, w, rfl, hspells, hnext, hmeans⟩ :=
    fronts_of_means (startsBelow text.length v) (Nat.le_refl _) houter (mustStart_value [])
      (means_of_parse h)
  match rest with
  | [] =>
    rw [List.append_nil]
    exact ⟨w, hspells, Except.ok.inj hmeans⟩
  | b :: rest =>
    obtain ⟨t, hstep, hrest⟩ := hmeans
    have hb : isSpace b = false := hnext b rfl
    rw [step_settle] at hstep
    simp only [settle, between, hb, Bool.false_eq_true, if_false] at hstep
    cases hstep

/-- **The reader and the grammar agree** on every text: it reads just the texts of values, nested
as deep as it goes, and brings their members in order. -/
theorem parse_eq_ok_iff :
    parse text = .ok v ↔ ∃ w, Spells maxDepth text (.value w) ∧ w.sorted = v := by
  constructor
  · exact spells_of_parse
  · rintro ⟨w, hspells, rfl⟩
    exact parse_of_spells hspells (Nat.le_refl _)

end WarcStream.Json
