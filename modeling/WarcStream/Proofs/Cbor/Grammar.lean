import WarcStream.Cbor.Parser
/-!
# The grammar of CBOR items

`Spells` says which octets are the item of a value, with every entry of a map in
the order it is written and no entry left out, however often its key is there.
It is about what is written and not about what is accepted: items may be nested
to any depth, and any text may be the first key of a map. An item says itself
where it ends, so whatever comes behind it, the octets spell one value
(`Spells.unique`).
-/

namespace WarcStream.Cbor

variable {xs ys zs bs bs' rest rest' : Bytes} {h h' : Header} {w w' : Value}
variable {key key' : String} {length count : Option Nat} {nesting : Nat}

/-! ## Items -/

/-- The octets are a header. -/
inductive Heads : Bytes → Header → Prop
  | intro {first : UInt8} {argument : Bytes} {h : Header} :
      argumentWidth? first = some argument.length → Header.of? first argument = some h →
      Heads (first :: argument) h

/-- The value of a header that has nothing behind it. -/
def Header.scalar? : Header → Option Value
  | .positive n => some (.natural (UInt64.ofNat n))
  | .negative n => if h : n < 2 ^ 63 then some (.number (.negative ⟨n, h⟩)) else none
  | .simple n =>
    if n = falseValue then some (.bool false)
    else if n = trueValue then some (.bool true)
    else if n = nullValue ∨ n = undefinedValue then some .null
    else none
  | .real x => some (if x.isFinite then .number (.real x) else .null)
  | .octets _ | .text _ | .array _ | .map _ | .tag _ | .stop => none

/-- The parts of a text up to where it ends, with so many texts of indefinite length open, and the
octets of the text. -/
inductive Parts : Nat → Bytes → Bytes → Prop
  | done : Parts 0 [] []
  /-- The innermost of the open texts ends. -/
  | stop {nesting : Nat} {xs ys bs : Bytes} :
      Heads xs .stop → Parts nesting ys bs → Parts (nesting + 1) (xs ++ ys) bs
  | part {nesting : Nat} {xs ys bs bs' : Bytes} :
      Heads xs (.text (some bs.length)) → Parts (nesting + 1) ys bs' →
      Parts (nesting + 1) (xs ++ (bs ++ ys)) (bs ++ bs')
  /-- Another text of indefinite length starts. -/
  | opened {nesting : Nat} {xs ys bs : Bytes} :
      Heads xs (.text none) → Parts (nesting + 2) ys bs → Parts (nesting + 1) (xs ++ ys) bs

/-- What is behind the header of a text of this length, and the octets of the text. -/
inductive Runs : Option Nat → Bytes → Bytes → Prop
  | whole {n : Nat} {bs : Bytes} : bs.length = n → Runs (some n) bs bs
  | parts {xs bs : Bytes} : Parts 1 xs bs → Runs none xs bs

/-- The octets are a key of a map. Tags in front of it mean nothing. -/
inductive Names : Bytes → String → Prop
  | text {length : Option Nat} {xs ys bs : Bytes} {key : String} :
      Heads xs (.text length) → Runs length ys bs → Text.ofBytes? bs = some key →
      Names (xs ++ ys) key
  | tagged {n : Nat} {xs ys : Bytes} {key : String} :
      Heads xs (.tag n) → Names ys key → Names (xs ++ ys) key

/-- What a part of an item is. -/
inductive Part where
  | value (w : Value)
  /-- What is left of a value behind its header. -/
  | behind (h : Header) (w : Value)
  /-- So many items; none is any number of them and their end. -/
  | items (count : Option Nat) (ws : List Value)
  /-- So many entries. -/
  | entries (count : Option Nat) (es : List (String × Value))

/-- **The grammar**: the octets are a part of an item. -/
inductive Spells : Bytes → Part → Prop
  | value {xs ys : Bytes} {h : Header} {w : Value} :
      Heads xs h → Spells ys (.behind h w) → Spells (xs ++ ys) (.value w)
  | scalar {h : Header} {w : Value} : h.scalar? = some w → Spells [] (.behind h w)
  | text {length : Option Nat} {xs bs : Bytes} {s : String} :
      Runs length xs bs → Text.ofBytes? bs = some s →
      Spells xs (.behind (.text length) (.string s))
  /-- A large integer. -/
  | bignum {tag : Nat} {xs bs : Bytes} {n : Number} :
      tag = positiveBignum ∨ tag = negativeBignum → Heads xs (.octets (some bs.length)) →
      bignum (tag = negativeBignum) bs = .ok n →
      Spells (xs ++ bs) (.behind (.tag tag) (.number n))
  | array {count : Option Nat} {xs : Bytes} {ws : List Value} :
      Spells xs (.items count ws) → Spells xs (.behind (.array count) (.array ws))
  | map {count : Option Nat} {xs : Bytes} {es : List (String × Value)} :
      Spells xs (.entries count es) → Spells xs (.behind (.map count) (.object es))
  | noItems : Spells [] (.items (some 0) [])
  | item {xs ys : Bytes} {w : Value} {left : Nat} {ws : List Value} :
      Spells xs (.value w) → Spells ys (.items (some left) ws) →
      Spells (xs ++ ys) (.items (some (left + 1)) (w :: ws))
  | lastItem {xs : Bytes} : Heads xs .stop → Spells xs (.items none [])
  | nextItem {xs ys : Bytes} {w : Value} {ws : List Value} :
      Spells xs (.value w) → Spells ys (.items none ws) →
      Spells (xs ++ ys) (.items none (w :: ws))
  | noEntries : Spells [] (.entries (some 0) [])
  | entry {xs ys zs : Bytes} {key : String} {w : Value} {left : Nat}
      {es : List (String × Value)} :
      Names xs key → Spells ys (.value w) → Spells zs (.entries (some left) es) →
      Spells (xs ++ (ys ++ zs)) (.entries (some (left + 1)) ((key, w) :: es))
  | lastEntry {xs : Bytes} : Heads xs .stop → Spells xs (.entries none [])
  | nextEntry {xs ys zs : Bytes} {key : String} {w : Value} {es : List (String × Value)} :
      Names xs key → Spells ys (.value w) → Spells zs (.entries none es) →
      Spells (xs ++ (ys ++ zs)) (.entries none ((key, w) :: es))

/-! ## One value

Two parts at the front of the same octets are the same, and so is what comes
behind them. -/

/-- A header says itself where it ends. -/
theorem Heads.unique (hx : Heads xs h) (hy : Heads ys h') (heq : xs ++ rest = ys ++ rest') :
    h = h' ∧ rest = rest' := by
  obtain ⟨hwidth, hof⟩ := hx
  obtain ⟨hwidth', hof'⟩ := hy
  simp only [List.cons_append, List.cons.injEq] at heq
  obtain ⟨rfl, heq⟩ := heq
  have hlength := Option.some.inj (hwidth.symm.trans hwidth')
  obtain ⟨rfl, rfl⟩ := List.append_inj heq hlength
  exact ⟨Option.some.inj (hof.symm.trans hof'), rfl⟩

/-- So does a text of several parts. -/
theorem Parts.unique (hx : Parts nesting xs bs) (hy : Parts nesting ys bs')
    (heq : xs ++ rest = ys ++ rest') : bs = bs' ∧ rest = rest' := by
  -- the next header is the same in both, and so decides what comes next
  induction hx generalizing ys bs' with
  | done =>
    cases hy with
    | done => exact ⟨rfl, heq⟩
  | stop hhead _ ih =>
    cases hy with
    | stop hhead' hrest =>
      simp only [List.append_assoc] at heq
      obtain ⟨-, heq⟩ := hhead.unique hhead' heq
      exact ih hrest heq
    | part hhead' _ =>
      simp only [List.append_assoc] at heq
      cases (hhead.unique hhead' heq).1
    | opened hhead' _ =>
      simp only [List.append_assoc] at heq
      cases (hhead.unique hhead' heq).1
  | part hhead _ ih =>
    cases hy with
    | stop hhead' _ =>
      simp only [List.append_assoc] at heq
      cases (hhead.unique hhead' heq).1
    | part hhead' hrest =>
      simp only [List.append_assoc] at heq
      obtain ⟨hlength, heq⟩ := hhead.unique hhead' heq
      injection hlength with hlength
      injection hlength with hlength
      obtain ⟨rfl, hbehind⟩ := List.append_inj heq hlength
      obtain ⟨rfl, rfl⟩ := ih hrest hbehind
      exact ⟨rfl, rfl⟩
    | opened hhead' _ =>
      simp only [List.append_assoc] at heq
      cases (hhead.unique hhead' heq).1
  | opened hhead _ ih =>
    cases hy with
    | stop hhead' _ =>
      simp only [List.append_assoc] at heq
      cases (hhead.unique hhead' heq).1
    | part hhead' _ =>
      simp only [List.append_assoc] at heq
      cases (hhead.unique hhead' heq).1
    | opened hhead' hrest =>
      simp only [List.append_assoc] at heq
      obtain ⟨-, heq⟩ := hhead.unique hhead' heq
      exact ih hrest heq

theorem Runs.unique (hx : Runs length xs bs) (hy : Runs length ys bs')
    (heq : xs ++ rest = ys ++ rest') : bs = bs' ∧ rest = rest' := by
  cases hx with
  | whole hlength =>
    cases hy with
    | whole hlength' => exact List.append_inj heq (hlength.trans hlength'.symm)
  | parts hparts =>
    cases hy with
    | parts hparts' => exact hparts.unique hparts' heq

theorem Names.unique (hx : Names xs key) (hy : Names ys key') (heq : xs ++ rest = ys ++ rest') :
    key = key' ∧ rest = rest' := by
  induction hx generalizing ys with
  | text hhead hruns htext =>
    cases hy with
    | text hhead' hruns' htext' =>
      simp only [List.append_assoc] at heq
      obtain ⟨hlength, heq⟩ := hhead.unique hhead' heq
      injection hlength with hlength
      subst hlength
      obtain ⟨rfl, rfl⟩ := hruns.unique hruns' heq
      exact ⟨Option.some.inj (htext.symm.trans htext'), rfl⟩
    | tagged hhead' _ =>
      simp only [List.append_assoc] at heq
      cases (hhead.unique hhead' heq).1
  | tagged hhead _ ih =>
    cases hy with
    | text hhead' _ _ =>
      simp only [List.append_assoc] at heq
      cases (hhead.unique hhead' heq).1
    | tagged hhead' hname =>
      simp only [List.append_assoc] at heq
      obtain ⟨-, heq⟩ := hhead.unique hhead' heq
      exact ih hname heq

/-- No key starts as an end does. -/
theorem Names.ne_stop (hx : Names xs key) (hy : Heads ys .stop) : xs ++ rest ≠ ys ++ rest' := by
  intro heq
  cases hx with
  | text hhead _ _ =>
    rw [List.append_assoc] at heq
    cases (hhead.unique hy heq).1
  | tagged hhead _ =>
    rw [List.append_assoc] at heq
    cases (hhead.unique hy heq).1

/-- No value does. -/
theorem Spells.ne_stop (hx : Spells xs (.value w)) (hy : Heads ys .stop) :
    xs ++ rest ≠ ys ++ rest' := by
  intro heq
  cases hx with
  | value hhead hbehind =>
    rw [List.append_assoc] at heq
    obtain ⟨rfl, -⟩ := hhead.unique hy heq
    cases hbehind with
    | scalar hvalue => cases hvalue

/-- What it means that a part of an item says itself where it ends. -/
def Part.IsUnique (xs : Bytes) : Part → Prop
  | .value w => ∀ ys rest rest' w', Spells ys (.value w') → xs ++ rest = ys ++ rest' →
      w = w' ∧ rest = rest'
  | .behind h w => ∀ ys rest rest' w', Spells ys (.behind h w') → xs ++ rest = ys ++ rest' →
      w = w' ∧ rest = rest'
  | .items count ws => ∀ ys rest rest' ws', Spells ys (.items count ws') →
      xs ++ rest = ys ++ rest' → ws = ws' ∧ rest = rest'
  | .entries count es => ∀ ys rest rest' es', Spells ys (.entries count es') →
      xs ++ rest = ys ++ rest' → es = es' ∧ rest = rest'

/-- **Every part of an item says itself where it ends.** -/
theorem isUnique_of_spells {part : Part} (hx : Spells xs part) : part.IsUnique xs := by
  induction hx with
  | value hhead _ ih =>
    intro _ rest rest' w' hy heq
    cases hy with
    | value hhead' hbehind =>
      simp only [List.append_assoc] at heq
      obtain ⟨rfl, heq⟩ := hhead.unique hhead' heq
      exact ih _ _ _ _ hbehind heq
  | scalar hvalue =>
    intro _ rest rest' w' hy heq
    cases hy with
    | scalar hvalue' => exact ⟨Option.some.inj (hvalue.symm.trans hvalue'), heq⟩
    | text | bignum | array | map => cases hvalue
  | text hruns htext =>
    intro _ rest rest' w' hy heq
    cases hy with
    | scalar hvalue => cases hvalue
    | text hruns' htext' =>
      obtain ⟨rfl, rfl⟩ := hruns.unique hruns' heq
      exact ⟨congrArg Value.string (Option.some.inj (htext.symm.trans htext')), rfl⟩
  | bignum _ hhead hnumber =>
    intro _ rest rest' w' hy heq
    cases hy with
    | scalar hvalue => cases hvalue
    | bignum _ hhead' hnumber' =>
      simp only [List.append_assoc] at heq
      obtain ⟨hlength, heq⟩ := hhead.unique hhead' heq
      injection hlength with hlength
      injection hlength with hlength
      obtain ⟨rfl, rfl⟩ := List.append_inj heq hlength
      exact ⟨congrArg Value.number (Except.ok.inj (hnumber.symm.trans hnumber')), rfl⟩
  | array _ ih =>
    intro _ rest rest' w' hy heq
    cases hy with
    | scalar hvalue => cases hvalue
    | array hitems =>
      obtain ⟨rfl, rfl⟩ := ih _ _ _ _ hitems heq
      exact ⟨rfl, rfl⟩
  | map _ ih =>
    intro _ rest rest' w' hy heq
    cases hy with
    | scalar hvalue => cases hvalue
    | map hentries =>
      obtain ⟨rfl, rfl⟩ := ih _ _ _ _ hentries heq
      exact ⟨rfl, rfl⟩
  | noItems =>
    intro _ rest rest' ws' hy heq
    cases hy with
    | noItems => exact ⟨rfl, heq⟩
  | item _ _ ih ihs =>
    intro _ rest rest' ws' hy heq
    cases hy with
    | item hitem hitems =>
      simp only [List.append_assoc] at heq
      obtain ⟨rfl, heq⟩ := ih _ _ _ _ hitem heq
      obtain ⟨rfl, rfl⟩ := ihs _ _ _ _ hitems heq
      exact ⟨rfl, rfl⟩
  | lastItem hstop =>
    intro _ rest rest' ws' hy heq
    cases hy with
    | lastItem hstop' => exact ⟨rfl, (hstop.unique hstop' heq).2⟩
    | nextItem hitem _ =>
      rw [List.append_assoc] at heq
      exact absurd heq.symm (hitem.ne_stop hstop)
  | nextItem hitem _ ih ihs =>
    intro _ rest rest' ws' hy heq
    cases hy with
    | lastItem hstop =>
      rw [List.append_assoc] at heq
      exact absurd heq (hitem.ne_stop hstop)
    | nextItem hitem' hitems =>
      simp only [List.append_assoc] at heq
      obtain ⟨rfl, heq⟩ := ih _ _ _ _ hitem' heq
      obtain ⟨rfl, rfl⟩ := ihs _ _ _ _ hitems heq
      exact ⟨rfl, rfl⟩
  | noEntries =>
    intro _ rest rest' es' hy heq
    cases hy with
    | noEntries => exact ⟨rfl, heq⟩
  | entry hname _ _ ih ihs =>
    intro _ rest rest' es' hy heq
    cases hy with
    | entry hname' hvalue hentries =>
      simp only [List.append_assoc] at heq
      obtain ⟨rfl, heq⟩ := hname.unique hname' heq
      obtain ⟨rfl, heq⟩ := ih _ _ _ _ hvalue heq
      obtain ⟨rfl, rfl⟩ := ihs _ _ _ _ hentries heq
      exact ⟨rfl, rfl⟩
  | lastEntry hstop =>
    intro _ rest rest' es' hy heq
    cases hy with
    | lastEntry hstop' => exact ⟨rfl, (hstop.unique hstop' heq).2⟩
    | nextEntry hname _ _ =>
      rw [List.append_assoc] at heq
      exact absurd heq.symm (hname.ne_stop hstop)
  | nextEntry hname _ _ ih ihs =>
    intro _ rest rest' es' hy heq
    cases hy with
    | lastEntry hstop =>
      rw [List.append_assoc] at heq
      exact absurd heq (hname.ne_stop hstop)
    | nextEntry hname' hvalue hentries =>
      simp only [List.append_assoc] at heq
      obtain ⟨rfl, heq⟩ := hname.unique hname' heq
      obtain ⟨rfl, heq⟩ := ih _ _ _ _ hvalue heq
      obtain ⟨rfl, rfl⟩ := ihs _ _ _ _ hentries heq
      exact ⟨rfl, rfl⟩

/-- **An item spells one value**, whatever comes behind it. -/
theorem Spells.unique (hx : Spells xs (.value w)) (hy : Spells ys (.value w'))
    (heq : xs ++ rest = ys ++ rest') : w = w' ∧ rest = rest' :=
  isUnique_of_spells hx ys rest rest' w' hy heq

end WarcStream.Cbor
