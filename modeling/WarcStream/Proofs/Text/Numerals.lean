import WarcStream.Text.Blank
import WarcStream.Text.Integer
import Mathlib.Data.List.TakeWhile
import Mathlib.Data.Nat.Digits.Defs
/-!
# Numerals in text

`Denotes` says which number a numeral stands for: one or more decimal digits,
with a plus sign in front or not. A text is read as a number just if it is a
numeral of that number, with white space around it or not
(`natural?_trim_eq_some_iff`).
-/

namespace WarcStream.Text

variable {s : String} {cs left core right : List Char} {n : UInt64} {k : Nat}

/-- A numeral of this number. -/
def Denotes (cs : List Char) (k : Nat) : Prop :=
  ∃ digits : List Char, (cs = digits ∨ cs = '+' :: digits) ∧ digits ≠ [] ∧
    (∀ c ∈ digits, c.isDigit = true) ∧ k = Nat.ofDigits 10 (digits.reverse.map digitValue)

/-- The digits are taken as those of a number in base ten. -/
theorem digitsValue_eq (cs : List Char) :
    digitsValue cs = Nat.ofDigits 10 (cs.reverse.map digitValue) := by
  rw [Nat.ofDigits_eq_foldr, List.foldr_map, List.foldr_reverse, digitsValue]
  refine congrArg (fun f => cs.foldl f 0) ?_
  funext value c
  rw [Nat.mul_comm, Nat.add_comm]
  rfl

theorem eq_unsigned (cs : List Char) : cs = unsigned cs ∨ cs = '+' :: unsigned cs := by
  unfold unsigned
  split
  · exact .inr rfl
  · exact .inl rfl

theorem unsigned_of_isDigit (h : ∀ c ∈ cs, c.isDigit = true) : unsigned cs = cs := by
  unfold unsigned
  split
  · have hplus := h '+' List.mem_cons_self
    exact absurd hplus (by decide)
  · rfl

/-- A text is read as a number just if it is a numeral of it. -/
theorem natural?_eq_some_iff : natural? s = some n ↔ Denotes s.toList n.toNat := by
  have hlt := n.toNat_lt
  simp only [natural?, Option.ite_none_right_eq_some, List.all_eq_true, Option.some.injEq]
  constructor
  · rintro ⟨⟨hsome, hdigits, hsmall⟩, rfl⟩
    refine ⟨unsigned s.toList, eq_unsigned _, hsome, hdigits, ?_⟩
    rw [← digitsValue_eq, UInt64.toNat_ofNat', Nat.mod_eq_of_lt hsmall]
  · rintro ⟨digits, hs, hsome, hdigits, hvalue⟩
    have hunsigned : unsigned s.toList = digits := by
      rcases hs with hs | hs
      · rw [hs, unsigned_of_isDigit hdigits]
      · rw [hs]
        rfl
    rw [← digitsValue_eq] at hvalue
    rw [hunsigned, ← hvalue]
    exact ⟨⟨hsome, hdigits, hlt⟩, UInt64.ofNat_toNat⟩

/-! ## White space around a text -/

theorem trimChars_append (hleft : ∀ c ∈ left, isWhite c = true) (hcore : core ≠ [])
    (hblack : ∀ c ∈ core, isWhite c = false) (hright : ∀ c ∈ right, isWhite c = true) :
    trimChars (left ++ core ++ right) = core := by
  have hdrop (xs ys : List Char) (hxs : ∀ c ∈ xs, isWhite c = true) (hys : ys ≠ [])
      (hblack : ∀ c ∈ ys, isWhite c = false) (rest : List Char) :
      (xs ++ ys ++ rest).dropWhile isWhite = ys ++ rest := by
    obtain ⟨c, ys, rfl⟩ := List.exists_cons_of_ne_nil hys
    rw [List.append_assoc, List.dropWhile_append_of_pos hxs, List.cons_append,
      List.dropWhile_cons_of_neg (by simp [hblack c List.mem_cons_self])]
  have hback := hdrop right.reverse core.reverse (by simpa using hright) (by simpa using hcore)
    (by simpa using hblack) []
  rw [trimChars, hdrop left core hleft hcore hblack, List.reverse_append]
  rw [List.append_nil, List.append_nil] at hback
  rw [hback, List.reverse_reverse]

/-- What is cut off is white. -/
theorem exists_eq_trimChars (cs : List Char) :
    ∃ left right, cs = left ++ trimChars cs ++ right ∧ (∀ c ∈ left, isWhite c = true) ∧
      ∀ c ∈ right, isWhite c = true := by
  refine ⟨cs.takeWhile isWhite, ((cs.dropWhile isWhite).reverse.takeWhile isWhite).reverse, ?_,
    fun c hc => List.mem_takeWhile_imp hc,
    fun c hc => List.mem_takeWhile_imp (List.mem_reverse.1 hc)⟩
  rw [trimChars, List.append_assoc, ← List.reverse_append, List.takeWhile_append_dropWhile,
    List.reverse_reverse, List.takeWhile_append_dropWhile]

/-- No character of a numeral is white. -/
theorem Denotes.isWhite_eq_false (h : Denotes cs k) : cs ≠ [] ∧ ∀ c ∈ cs, isWhite c = false := by
  obtain ⟨digits, hcs, hsome, hdigits, -⟩ := h
  have hdigit (c : Char) (hc : c ∈ digits) : isWhite c = false := by
    have hrange : 48 ≤ c.toNat ∧ c.toNat ≤ 57 := by
      have hdigit := hdigits c hc
      simpa [Char.isDigit, UInt32.le_iff_toNat_le] using hdigit
    simp only [isWhite, Bool.or_eq_false_iff, Bool.and_eq_false_iff, decide_eq_false_iff_not,
      beq_eq_false_iff_ne]
    omega
  rcases hcs with rfl | rfl
  · exact ⟨hsome, hdigit⟩
  · exact ⟨List.cons_ne_nil _ _, List.forall_mem_cons.2 ⟨by decide, hdigit⟩⟩

/-- **A number in white space**: a text that is trimmed is read just if it is a numeral with white
space around it, or none. -/
theorem natural?_trim_eq_some_iff :
    natural? (trim s) = some n ↔
      ∃ left core right, s.toList = left ++ core ++ right ∧ (∀ c ∈ left, isWhite c = true) ∧
        (∀ c ∈ right, isWhite c = true) ∧ Denotes core n.toNat := by
  rw [natural?_eq_some_iff, trim, String.toList_ofList]
  constructor
  · intro h
    obtain ⟨left, right, hs, hleft, hright⟩ := exists_eq_trimChars s.toList
    exact ⟨left, _, right, hs, hleft, hright, h⟩
  · rintro ⟨left, core, right, hs, hleft, hright, h⟩
    obtain ⟨hcore, hblack⟩ := h.isWhite_eq_false
    rwa [hs, trimChars_append hleft hcore hblack hright]

end WarcStream.Text
