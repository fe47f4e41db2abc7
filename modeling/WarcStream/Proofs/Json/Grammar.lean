import WarcStream.Json.Parser
/-!
# The grammar of JSON texts

`Spells` says which octets are the text of a value, with every member of an
object in the order it is written and no member left out, however often its name
is there. The machine reads each such text as the value with the members in the
order of their names (`parse_of_spells`); that it reads nothing else is the other
half, which is proved apart. A string, a list or an object ends with its last
octet. A number does not: `Settled` covers both, so that what comes behind a
value need not tell them apart.
-/

namespace WarcStream.Json

variable {stack : List Open} {s t u : State} {xs ys inner text : Bytes} {b : UInt8} {v : Value}
variable {found : List (String × Value)} {key : String} {n : Numeral} {k : Number}

/-! ## Texts -/

/-- The octets of a number, as far as it has been read. -/
inductive Numeral.Spells : Bytes → Numeral → Prop
  | minus : Spells [0x2d] .minus
  | first {b : UInt8} {n : Numeral} : first false b = .more n → Spells [b] n
  | more {text : Bytes} {b : UInt8} {n next : Numeral} :
      Spells text n → n.step b = .more next → Spells (text ++ [b]) next

/-- The octets between quotes, and the octets of the text they stand for. -/
inductive Unescapes : Bytes → Bytes → Prop
  | nil : Unescapes [] []
  /-- An octet that stands for itself. -/
  | plain {b : UInt8} {xs bs : Bytes} :
      b ≠ 0x22 → b ≠ 0x5c → ¬ b < 0x20 → Unescapes xs bs → Unescapes (b :: xs) (b :: bs)
  /-- A letter behind a backslash. -/
  | letter {b c : UInt8} {xs bs : Bytes} :
      escaped? b = some c → Unescapes xs bs → Unescapes (0x5c :: b :: xs) (c :: bs)
  /-- The number of a character. -/
  | unit {digits xs bs : Bytes} {n : Nat} :
      digits.length = 4 → unitValue? digits = some n → isTrail n = false → isLead n = false →
      Unescapes xs bs → Unescapes (0x5c :: 0x75 :: (digits ++ xs)) (codePoint n ++ bs)
  /-- The numbers of two surrogates. -/
  | pair {digits digits' xs bs : Bytes} {lead trail : Nat} :
      digits.length = 4 → unitValue? digits = some lead → isLead lead = true →
      digits'.length = 4 → unitValue? digits' = some trail → isTrail trail = true →
      Unescapes xs bs →
      Unescapes (0x5c :: 0x75 :: (digits ++ 0x5c :: 0x75 :: (digits' ++ xs)))
        (codePoint ((lead - 0xd800) * 0x400 + (trail - 0xdc00) + 0x10000) ++ bs)

/-- The octets are a text between quotes. -/
inductive Quotes : Bytes → String → Prop
  | intro {inner bs : Bytes} {s : String} :
      Unescapes inner bs → Text.ofBytes? bs = some s → Quotes (0x22 :: (inner ++ [0x22])) s

/-- Nothing but blanks. -/
def Blank (xs : Bytes) : Prop := ∀ b ∈ xs, isSpace b = true

theorem blank_nil : Blank [] := fun _ h => absurd h List.not_mem_nil

/-- The octets are a name of a member, with blanks around it. -/
inductive Names : Bytes → String → Prop
  | intro {before text behind : Bytes} {key : String} :
      Blank before → Quotes text key → Blank behind → Names (before ++ (text ++ behind)) key

/-- What a part of a text is. -/
inductive Part where
  | value (w : Value)
  /-- Items between commas, at least one. -/
  | items (ws : List Value)
  /-- Members between commas, at least one. -/
  | entries (es : List (String × Value))

/-- **The grammar**: the octets are a part of a text that is nested at most so deep. There may be
blanks around a value. -/
inductive Spells : Nat → Bytes → Part → Prop
  | null {depth : Nat} : Spells depth [0x6e, 0x75, 0x6c, 0x6c] (.value .null)
  | yes {depth : Nat} : Spells depth [0x74, 0x72, 0x75, 0x65] (.value (.bool true))
  | no {depth : Nat} : Spells depth [0x66, 0x61, 0x6c, 0x73, 0x65] (.value (.bool false))
  | number {depth : Nat} {text : Bytes} {n : Numeral} {k : Number} :
      n.Spells text → n.finish = .ok k → Spells depth text (.value (.number k))
  | string {depth : Nat} {text : Bytes} {s : String} :
      Quotes text s → Spells depth text (.value (.string s))
  | noItems {depth : Nat} {xs : Bytes} :
      Blank xs → Spells (depth + 1) (0x5b :: (xs ++ [0x5d])) (.value (.array []))
  | array {depth : Nat} {xs : Bytes} {ws : List Value} :
      Spells depth xs (.items ws) → Spells (depth + 1) (0x5b :: (xs ++ [0x5d])) (.value (.array ws))
  | noEntries {depth : Nat} {xs : Bytes} :
      Blank xs → Spells (depth + 1) (0x7b :: (xs ++ [0x7d])) (.value (.object []))
  | object {depth : Nat} {xs : Bytes} {es : List (String × Value)} :
      Spells depth xs (.entries es) →
      Spells (depth + 1) (0x7b :: (xs ++ [0x7d])) (.value (.object es))
  | before {depth : Nat} {b : UInt8} {xs : Bytes} {w : Value} :
      isSpace b = true → Spells depth xs (.value w) → Spells depth (b :: xs) (.value w)
  | behind {depth : Nat} {b : UInt8} {xs : Bytes} {w : Value} :
      isSpace b = true → Spells depth xs (.value w) → Spells depth (xs ++ [b]) (.value w)
  | item {depth : Nat} {xs : Bytes} {w : Value} :
      Spells depth xs (.value w) → Spells depth xs (.items [w])
  | items {depth : Nat} {xs ys : Bytes} {w : Value} {ws : List Value} :
      Spells depth xs (.value w) → Spells depth ys (.items ws) →
      Spells depth (xs ++ 0x2c :: ys) (.items (w :: ws))
  | entry {depth : Nat} {xs ys : Bytes} {key : String} {w : Value} :
      Names xs key → Spells depth ys (.value w) →
      Spells depth (xs ++ 0x3a :: ys) (.entries [(key, w)])
  | entries {depth : Nat} {xs ys zs : Bytes} {key : String} {w : Value}
      {es : List (String × Value)} :
      Names xs key → Spells depth ys (.value w) → Spells depth zs (.entries es) →
      Spells depth (xs ++ 0x3a :: (ys ++ 0x2c :: zs)) (.entries ((key, w) :: es))

/-! ## Octets that are read -/

/-- From one state to another by these octets. -/
def State.Reaches (s : State) (octets : Bytes) (t : State) : Prop :=
  ∀ consumed, s.run octets consumed = .ok t

namespace State.Reaches

theorem nil (s : State) : s.Reaches [] s := fun _ => rfl

theorem cons (hstep : s.step b = .ok t) (h : t.Reaches xs u) : s.Reaches (b :: xs) u := by
  intro consumed
  rw [State.run, hstep]
  exact h (consumed + 1)

theorem append (hxs : s.Reaches xs t) (hys : t.Reaches ys u) : s.Reaches (xs ++ ys) u := by
  intro consumed
  rw [State.run_append, hxs]
  exact hys _

theorem singleton (hstep : s.step b = .ok t) : s.Reaches [b] t := cons hstep (nil t)

/-- Blanks change nothing where none of them does. -/
theorem blanks (hs : ∀ b, isSpace b = true → s.step b = .ok s) (h : Blank xs) :
    s.Reaches xs s := by
  induction xs with
  | nil => exact nil s
  | cons b rest ih =>
    exact cons (hs b (h b List.mem_cons_self)) (ih fun c hc => h c (List.mem_cons_of_mem b hc))

end State.Reaches

/-! ## Numbers -/

/-- What starts a number is a digit. -/
theorem Numeral.isDigit_of_first (h : first false b = .more n) : Bytes.isDigit b = true := by
  unfold first at h
  split at h
  · rename_i hzero
    subst hzero
    rfl
  · split at h
    · assumption
    · cases h

/-- A digit starts a number. -/
theorem startValue_of_first (stack : List Open) (h : Numeral.first false b = .more n) :
    isSpace b = false ∧ startValue stack b = .ok ⟨stack, .number n⟩ := by
  have hdigit := Numeral.isDigit_of_first h
  have hother {c : UInt8} (hc : Bytes.isDigit c = false) : b ≠ c := by
    rintro rfl
    rw [hdigit] at hc
    cases hc
  have hspace : isSpace b = false := by
    simp only [isSpace, hother (c := 0x20) rfl, hother (c := 0x0a) rfl, hother (c := 0x09) rfl,
      hother (c := 0x0d) rfl, decide_false, Bool.or_self]
  refine ⟨hspace, ?_⟩
  rw [startValue, if_neg (hother rfl), if_neg (hother rfl), if_neg (hother rfl),
    if_neg (hother rfl), if_pos hdigit, h]

/-- **A number is read** from its first octet on. -/
theorem Numeral.Spells.reaches (h : n.Spells text) (stack : List Open) :
    ∃ b rest s, text = b :: rest ∧ isSpace b = false ∧ startValue stack b = .ok s ∧
      s.Reaches rest ⟨stack, .number n⟩ := by
  induction h with
  | minus => exact ⟨0x2d, [], _, rfl, rfl, rfl, .nil _⟩
  | @first b n hfirst =>
    obtain ⟨hspace, hstart⟩ := startValue_of_first stack hfirst
    exact ⟨b, [], _, rfl, hspace, hstart, .nil _⟩
  | @more text c n next _ hstep ih =>
    obtain ⟨b, rest, s, rfl, hspace, hstart, hread⟩ := ih
    refine ⟨b, rest ++ [c], s, rfl, hspace, hstart, hread.append (.singleton ?_)⟩
    simp only [State.step, hstep]

/-- An octet that ends a number: no digit, no point and no exponent. -/
def EndsNumber (b : UInt8) : Prop :=
  Bytes.isDigit b = false ∧ b ≠ 0x2e ∧ Numeral.isExponentMark b = false

instance (b : UInt8) : Decidable (EndsNumber b) := inferInstanceAs (Decidable (_ ∧ _ ∧ _))

theorem endsNumber_of_isSpace (hb : isSpace b = true) : EndsNumber b := by
  simp only [isSpace, Bool.or_eq_true, decide_eq_true_eq] at hb
  rcases hb with ((rfl | rfl) | rfl) | rfl <;> decide

/-- A number that may end does so in front of such an octet. -/
theorem Numeral.step_of_endsNumber (h : n.finish = .ok k) (hb : EndsNumber b) :
    n.step b = .ended := by
  obtain ⟨hdigit, hpoint, hmark⟩ := hb
  cases n with
  | minus | point | exponentMark | exponentSign => cases h
  | zero | integer | longInteger | fraction | longFraction | exponent | vanished =>
    simp [Numeral.step, hdigit, hpoint, hmark]

/-! ## Strings -/

section Strings

variable {role : Role} {bs digits : Bytes}

/-- Four digits of a code unit. -/
theorem reaches_digits (stack : List Open) (role : Role) (text : Bytes) (lead : Option Nat)
    {value : Nat} (hlength : digits.length = 4) (hvalue : unitValue? digits = some value)
    (hend : endUnit stack role text lead value = .ok t) :
    State.Reaches ⟨stack, .unit role text lead []⟩ digits t := by
  match digits, hlength with
  | [a, b, c, d], _ =>
    refine .cons (t := ⟨stack, .unit role text lead [a]⟩) rfl ?_
    refine .cons (t := ⟨stack, .unit role text lead [b, a]⟩) rfl ?_
    refine .cons (t := ⟨stack, .unit role text lead [c, b, a]⟩) rfl (.singleton ?_)
    simp only [State.step, List.length_cons, List.length_nil, List.reverse_cons, List.reverse_nil,
      List.nil_append, List.cons_append, hvalue, hend]
    rfl

/-- **What stands between quotes is read** as the octets it stands for. -/
theorem Unescapes.reaches (h : Unescapes inner bs) (stack : List Open) (role : Role)
    (text : Bytes) :
    State.Reaches ⟨stack, .string role text⟩ inner ⟨stack, .string role (bs.reverse ++ text)⟩ := by
  induction h generalizing text with
  | nil => exact .nil _
  | @plain b xs bs hquote hbackslash hlow _ ih =>
    rw [List.reverse_cons, List.append_assoc]
    refine .cons ?_ (ih (b :: text))
    simp only [State.step]
    rw [if_neg hquote, if_neg hbackslash, if_neg hlow]
  | @letter b c xs bs hletter _ ih =>
    have hunit : b ≠ 0x75 := by
      rintro rfl
      cases hletter
    rw [List.reverse_cons, List.append_assoc]
    refine .cons (t := ⟨stack, .escape role text⟩) rfl (.cons ?_ (ih (c :: text)))
    simp only [State.step]
    rw [if_neg hunit, hletter]
  | @unit digits xs bs n hlength hvalue htrail hlead _ ih =>
    rw [List.reverse_append, List.append_assoc]
    refine .cons (t := ⟨stack, .escape role text⟩) rfl ?_
    refine .cons (t := ⟨stack, .unit role text none []⟩) rfl ?_
    refine State.Reaches.append ?_ (ih ((codePoint n).reverse ++ text))
    refine reaches_digits stack role text none hlength hvalue ?_
    simp only [endUnit, htrail, hlead, Bool.false_eq_true, if_false]
  | @pair digits digits' xs bs lead trail hlength hvalue hlead hlength' hvalue' htrail _ ih =>
    have hnot : isTrail lead = false := by
      simp only [isLead, isTrail, Bool.and_eq_true, decide_eq_true_eq, Bool.and_eq_false_iff,
        decide_eq_false_iff_not] at hlead ⊢
      omega
    rw [List.reverse_append, List.append_assoc]
    refine .cons (t := ⟨stack, .escape role text⟩) rfl ?_
    refine .cons (t := ⟨stack, .unit role text none []⟩) rfl ?_
    refine State.Reaches.append (t := ⟨stack, .pair role text lead false⟩) ?_ ?_
    · refine reaches_digits stack role text none hlength hvalue ?_
      simp only [endUnit, hnot, hlead, Bool.false_eq_true, if_false, if_true]
    · refine .cons (t := ⟨stack, .pair role text lead true⟩) rfl ?_
      refine .cons (t := ⟨stack, .unit role text (some lead) []⟩) rfl ?_
      refine State.Reaches.append ?_ (ih _)
      refine reaches_digits stack role text (some lead) hlength' hvalue' ?_
      simp only [endUnit, htrail, if_true]

/-- **A text between quotes is read** up to its end. -/
theorem reaches_quotes (h : Unescapes inner bs)
    (hend : endString stack role bs.reverse = .ok t) :
    State.Reaches ⟨stack, .string role []⟩ (inner ++ [0x22]) t := by
  have hread := h.reaches stack role []
  rw [List.append_nil] at hread
  refine hread.append (.singleton ?_)
  simp only [State.step, if_pos]
  exact hend

end Strings

/-! ## Values -/

/-- A value has been read: it has ended, or it is a number that goes on until an octet ends it. -/
def Settled (stack : List Open) (v : Value) (s : State) : Prop :=
  s = settle stack v ∨ ∃ n k, Numeral.finish n = .ok k ∧ v = .number k ∧ s = ⟨stack, .number n⟩

theorem step_settle (stack : List Open) (v : Value) (b : UInt8) :
    (settle stack v).step b = between (settle stack v).stack b (settle stack v).mode := by
  match stack with
  | [] | .list _ :: _ | .object _ _ :: _ => rfl

/-- **What comes behind a value** is read the same, whether the value has ended or is a number. -/
theorem Settled.step_eq (h : Settled stack v s) (hb : EndsNumber b) :
    s.step b = between (settle stack v).stack b (settle stack v).mode := by
  rcases h with rfl | ⟨n, k, hfinish, rfl, rfl⟩
  · exact step_settle stack v b
  · simp only [State.step, Numeral.step_of_endsNumber hfinish hb, hfinish]

/-- Blanks behind a value end it, and change nothing else. -/
theorem Settled.blank (h : Settled stack v s) (hb : isSpace b = true) :
    s.step b = .ok (settle stack v) := by
  rw [h.step_eq (endsNumber_of_isSpace hb)]
  match stack with
  | [] | .list _ :: _ | .object _ _ :: _ => simp only [settle, between, hb, if_true]

/-- The outermost value is what the text means. -/
theorem Settled.finish_eq (h : Settled [] v s) : s.finish = .ok v := by
  rcases h with rfl | ⟨n, k, hfinish, rfl, rfl⟩
  · rfl
  · simp only [State.finish, hfinish]
    rfl

/-- A value may start inside these containers. -/
structure State.AtValue (stack : List Open) (s : State) : Prop where
  blank : ∀ b, isSpace b = true → s.step b = .ok s
  start : ∀ b t, isSpace b = false → startValue stack b = .ok t → s.step b = .ok t

theorem atValue_value (stack : List Open) : State.AtValue stack ⟨stack, .value⟩ := by
  constructor
  · intro b hb
    simp only [State.step, hb, if_true]
  · intro b t hb hstart
    simp only [State.step, hb, Bool.false_eq_true, if_false]
    exact hstart

/-- No value starts with a closing bracket. -/
theorem ne_bracket_of_startValue (h : startValue stack b = .ok t) : b ≠ 0x5d := by
  rintro rfl
  cases h

theorem atValue_listStart (stack : List Open) :
    State.AtValue (.list [] :: stack) ⟨stack, .listStart⟩ := by
  constructor
  · intro b hb
    simp only [State.step, hb, if_true]
  · intro b t hb hstart
    simp only [State.step, hb, Bool.false_eq_true, if_false]
    rw [if_neg (ne_bracket_of_startValue hstart)]
    exact hstart

theorem atValue_listNext (stack : List Open) : State.AtValue stack ⟨stack, .listNext⟩ := by
  constructor
  · intro b hb
    simp only [State.step, hb, if_true]
  · intro b t hb hstart
    simp only [State.step, hb, Bool.false_eq_true, if_false]
    rw [if_neg (ne_bracket_of_startValue hstart)]
    exact hstart

/-- The name of a member may start, behind these members. -/
structure State.AtKey (stack : List Open) (found : List (String × Value)) (s : State) : Prop where
  blank : ∀ b, isSpace b = true → s.step b = .ok s
  start : s.step 0x22 = .ok ⟨stack, .string (.key found) []⟩

theorem atKey_objectStart (stack : List Open) : State.AtKey stack [] ⟨stack, .objectStart⟩ := by
  constructor
  · intro b hb
    simp only [State.step, hb, if_true]
  · rfl

theorem atKey_objectNext (stack : List Open) (found : List (String × Value)) :
    State.AtKey stack found ⟨stack, .objectNext found⟩ := by
  constructor
  · intro b hb
    simp only [State.step, hb, if_true]
  · rfl

/-- The name of a member is read with the colon behind it. -/
theorem Names.reaches (h : Names xs key) (hs : s.AtKey stack found) :
    s.Reaches (xs ++ [0x3a]) ⟨.object found key :: stack, .value⟩ := by
  obtain ⟨hbefore, hquotes, hbehind⟩ := h
  obtain @⟨inner, bs, _, hinner, htext⟩ := hquotes
  have hend : endString stack (.key found) bs.reverse = .ok ⟨stack, .afterKey found key⟩ := by
    simp only [endString, List.reverse_reverse, htext]
  rw [List.append_assoc, List.append_assoc]
  refine (State.Reaches.blanks hs.blank hbefore).append ?_
  refine .cons hs.start ((reaches_quotes hinner hend).append ?_)
  refine (State.Reaches.blanks (fun b hb => ?_) hbehind).append (.singleton rfl)
  simp only [State.step, hb, if_true]

/-- What it means that a part of a text is read. -/
def Part.IsRead (depth : Nat) (text : Bytes) : Part → Prop
  | .value w => ∀ (stack : List Open) (s : State), stack.length + depth ≤ maxDepth →
      s.AtValue stack →
      ∃ t, s.Reaches text t ∧ Settled stack w.sorted t
  | .items ws => ∀ (stack : List Open) (done : List Value) (s : State),
      stack.length + 1 + depth ≤ maxDepth → s.AtValue (.list done :: stack) →
      s.Reaches (text ++ [0x5d]) (settle stack (.array (done.reverse ++ Value.sortedItems ws)))
  | .entries es => ∀ (stack : List Open) (found : List (String × Value)) (s : State),
      stack.length + 1 + depth ≤ maxDepth → s.AtKey stack found →
      s.Reaches (text ++ [0x7d]) (settle stack (.object (Value.sortedEntries es found)))

/-- **Every part of a text is read**, as deep as it fits. -/
theorem isRead_of_spells {depth : Nat} {part : Part} (h : Spells depth text part) :
    part.IsRead depth text := by
  induction h with
  | null =>
    intro stack s _ hs
    refine ⟨_, .cons (hs.start _ _ rfl rfl) ?_, .inl rfl⟩
    exact .cons rfl (.cons rfl (.singleton rfl))
  | yes =>
    intro stack s _ hs
    refine ⟨_, .cons (hs.start _ _ rfl rfl) ?_, .inl rfl⟩
    exact .cons rfl (.cons rfl (.singleton rfl))
  | no =>
    intro stack s _ hs
    refine ⟨_, .cons (hs.start _ _ rfl rfl) ?_, .inl rfl⟩
    exact .cons rfl (.cons rfl (.cons rfl (.singleton rfl)))
  | number htext hfinish =>
    intro stack s _ hs
    obtain ⟨b, rest, t, rfl, hspace, hstart, hread⟩ := htext.reaches stack
    exact ⟨_, .cons (hs.start b t hspace hstart) hread, .inr ⟨_, _, hfinish, rfl, rfl⟩⟩
  | string hquotes =>
    intro stack s _ hs
    obtain ⟨hinner, htext⟩ := hquotes
    refine ⟨_, .cons (hs.start _ _ rfl rfl) (reaches_quotes hinner ?_), .inl rfl⟩
    simp only [endString, List.reverse_reverse, htext]
    rfl
  | noItems hblank =>
    intro stack s hdepth hs
    have hopen : startValue stack 0x5b = .ok ⟨stack, .listStart⟩ := by
      simp [startValue, Bytes.isDigit]
      omega
    have hinner := State.Reaches.blanks (atValue_listStart stack).blank hblank
    exact ⟨_, .cons (hs.start _ _ rfl hopen) (hinner.append (.singleton rfl)), .inl rfl⟩
  | array _ ih =>
    intro stack s hdepth hs
    have hopen : startValue stack 0x5b = .ok ⟨stack, .listStart⟩ := by
      simp [startValue, Bytes.isDigit]
      omega
    have hitems := ih stack [] _ (by omega) (atValue_listStart stack)
    exact ⟨_, .cons (hs.start _ _ rfl hopen) hitems, .inl rfl⟩
  | noEntries hblank =>
    intro stack s hdepth hs
    have hopen : startValue stack 0x7b = .ok ⟨stack, .objectStart⟩ := by
      simp [startValue, Bytes.isDigit]
      omega
    have hinner := State.Reaches.blanks (atKey_objectStart stack).blank hblank
    exact ⟨_, .cons (hs.start _ _ rfl hopen) (hinner.append (.singleton rfl)), .inl rfl⟩
  | object _ ih =>
    intro stack s hdepth hs
    have hopen : startValue stack 0x7b = .ok ⟨stack, .objectStart⟩ := by
      simp [startValue, Bytes.isDigit]
      omega
    have hentries := ih stack [] _ (by omega) (atKey_objectStart stack)
    exact ⟨_, .cons (hs.start _ _ rfl hopen) hentries, .inl rfl⟩
  | before hb _ ih =>
    intro stack s hdepth hs
    obtain ⟨t, hread, hsettled⟩ := ih stack s hdepth hs
    exact ⟨t, .cons (hs.blank _ hb) hread, hsettled⟩
  | behind hb _ ih =>
    intro stack s hdepth hs
    obtain ⟨t, hread, hsettled⟩ := ih stack s hdepth hs
    exact ⟨_, hread.append (.singleton (hsettled.blank hb)), .inl rfl⟩
  | @item depth xs w _ ih =>
    intro stack done s hdepth hs
    obtain ⟨t, hread, hsettled⟩ := ih (.list done :: stack) s (by rw [List.length_cons]; omega) hs
    have hclose : between stack 0x5d (.afterItem (w.sorted :: done)) =
        .ok (settle stack (.array (w.sorted :: done).reverse)) := rfl
    rw [List.reverse_cons] at hclose
    exact hread.append (.singleton ((hsettled.step_eq (by decide)).trans hclose))
  | @items depth xs ys w ws _ _ ih ihs =>
    intro stack done s hdepth hs
    obtain ⟨t, hread, hsettled⟩ := ih (.list done :: stack) s (by rw [List.length_cons]; omega) hs
    have hrest := ihs stack (w.sorted :: done) _ hdepth (atValue_listNext _)
    rw [List.reverse_cons, List.append_assoc] at hrest
    rw [List.append_assoc, List.cons_append]
    exact hread.append (.cons ((hsettled.step_eq (by decide)).trans rfl) hrest)
  | @entry depth xs ys key w hname _ ih =>
    intro stack found s hdepth hs
    obtain ⟨t, hread, hsettled⟩ :=
      ih (.object found key :: stack) _ (by rw [List.length_cons]; omega) (atValue_value _)
    have hwhole := (hname.reaches hs).append
      (hread.append (.singleton ((hsettled.step_eq (b := 0x7d) (by decide)).trans rfl)))
    rw [List.append_assoc] at hwhole
    rw [List.append_assoc, List.cons_append]
    exact hwhole
  | @entries depth xs ys zs key w es hname _ _ ih ihs =>
    intro stack found s hdepth hs
    obtain ⟨t, hread, hsettled⟩ :=
      ih (.object found key :: stack) _ (by rw [List.length_cons]; omega) (atValue_value _)
    have hrest := ihs stack (insertEntry key w.sorted found) _ hdepth (atKey_objectNext _ _)
    have hwhole := (hname.reaches hs).append
      (hread.append (.cons ((hsettled.step_eq (b := 0x2c) (by decide)).trans rfl) hrest))
    rw [List.append_assoc] at hwhole
    rw [List.append_assoc, List.cons_append, List.append_assoc, List.cons_append]
    exact hwhole

/-- Blanks behind a value change nothing. -/
theorem Spells.blanks {depth : Nat} {w : Value} (h : Spells depth xs (.value w)) (hys : Blank ys) :
    Spells depth (xs ++ ys) (.value w) := by
  induction ys generalizing xs with
  | nil => rwa [List.append_nil]
  | cons b rest ih =>
    have hmore := ih (h.behind (hys b List.mem_cons_self)) fun c hc =>
      hys c (List.mem_cons_of_mem b hc)
    rwa [List.append_assoc] at hmore

/-- Nor do blanks in front of it. -/
theorem Spells.behind_blanks {depth : Nat} {w : Value} (h : Spells depth xs (.value w))
    (hys : Blank ys) : Spells depth (ys ++ xs) (.value w) := by
  induction ys with
  | nil => exact h
  | cons b rest ih =>
    exact .before (hys b List.mem_cons_self) (ih fun c hc => hys c (List.mem_cons_of_mem b hc))

/-- **A text is read** as the value it spells, with its members in the order of their names. -/
theorem parse_of_spells {depth : Nat} {w : Value} (h : Spells depth text (.value w))
    (hdepth : depth ≤ maxDepth) : parse text = .ok w.sorted := by
  have hstart : ([] : List Open).length + depth ≤ maxDepth := by simpa using hdepth
  obtain ⟨t, hread, hsettled⟩ := isRead_of_spells h [] .start hstart (atValue_value [])
  rw [parse, hread 0]
  simp only [hsettled.finish_eq]

end WarcStream.Json
