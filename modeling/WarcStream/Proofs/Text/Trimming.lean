import WarcStream.Proofs.Text.Characters
import WarcStream.Text.Blank
import Mathlib.Data.List.TakeWhile
/-!
# Texts by their octets

The octets of characters are whole: `IsWhole` is kept by joining, and ASCII
octets are characters of their own (`utf8EncodeChar_cases`). A text whose first
and last octets are printed ASCII characters has no white space to trim
(`trim_eq_self`), whatever stands between.
-/

namespace WarcStream.Text

variable {xs ys inner : Bytes} {a b z : UInt8} {c : Char} {cs : List Char} {s : String}

/-! ## Whole characters -/

theorem isWhole_nil : IsWhole [] := ⟨[], rfl⟩

theorem IsWhole.append (hxs : IsWhole xs) (hys : IsWhole ys) : IsWhole (xs ++ ys) := by
  obtain ⟨cs, rfl⟩ := hxs
  obtain ⟨ds, rfl⟩ := hys
  exact ⟨cs ++ ds, List.flatMap_append.symm⟩

theorem isWhole_of_ascii (h : xs.all (· < 0x80) = true) : IsWhole xs := by
  have hlow : ∀ b ∈ xs, b < 0x80 := fun b hb => of_decide_eq_true (List.all_eq_true.1 h b hb)
  have htext := isWhole_bytes (String.ofList (xs.map Char.ofUInt8))
  rwa [bytes_ofList xs hlow] at htext

/-- Whole characters are a text. -/
theorem IsWhole.exists_bytes_eq (h : IsWhole xs) : ∃ s, bytes s = xs := by
  obtain ⟨cs, rfl⟩ := h
  exact ⟨String.ofList cs, by rw [bytes_eq, String.toList_ofList]⟩

/-- **An ASCII character has one octet**, its number, and the octets of any other are no ASCII
characters. -/
theorem utf8EncodeChar_cases (c : Char) :
    (∃ b : UInt8, b < 0x80 ∧ String.utf8EncodeChar c = [b] ∧ c.toNat = b.toNat) ∨
      ∀ b ∈ String.utf8EncodeChar c, 0x80 ≤ b := by
  have hvalid := c.valid
  simp only [UInt32.isValidChar, Nat.isValidChar] at hvalid
  fun_cases String.utf8EncodeChar c
  · rename_i v hv
    refine .inl ⟨_, ?_, rfl, ?_⟩
    · simp only [UInt8.lt_iff_toNat_lt, UInt8.toNat_ofNat', UInt8.reduceToNat, Nat.reducePow]
      omega
    · simp only [UInt8.toNat_ofNat', Nat.reducePow]
      show c.val.toNat = _
      omega
  -- the first octet of a longer character is at least 0xc0, the others at least 0x80
  all_goals
    refine .inr ?_
    simp only [List.forall_mem_cons, List.not_mem_nil, false_implies, implies_true, and_true,
      UInt8.le_iff_toNat_le, UInt8.toNat_ofNat', UInt8.reduceToNat, Nat.reducePow]
    omega

/-- An octet of an ASCII character is all of its character. -/
theorem eq_singleton_of_mem (hb : b ∈ String.utf8EncodeChar c) (hlow : b < 0x80) :
    String.utf8EncodeChar c = [b] ∧ c.toNat = b.toNat := by
  rcases utf8EncodeChar_cases c with ⟨b', -, hc, hnumber⟩ | hhigh
  · rw [hc] at hb
    obtain rfl := List.mem_singleton.1 hb
    exact ⟨hc, hnumber⟩
  · exact absurd (UInt8.lt_of_le_of_lt (hhigh b hb) hlow) (UInt8.lt_irrefl _)

/-- The octets of a line feed are those of no other character. -/
theorem lineFeed_mem_iff : Bytes.lineFeed ∈ String.utf8EncodeChar c ↔ c = '\n' := by
  refine ⟨fun h => ?_, fun h => ?_⟩
  · have hnumber := (eq_singleton_of_mem h (by decide)).2
    exact Char.toNat_inj.1 hnumber
  · rw [h]
    decide

/-- A text has as many line feeds as its octets do. -/
theorem count_lineFeed (cs : List Char) :
    (cs.flatMap String.utf8EncodeChar).count Bytes.lineFeed = cs.count '\n' := by
  induction cs with
  | nil => rfl
  | cons c cs ih =>
    rw [List.flatMap_cons, List.count_append, ih]
    by_cases hc : c = '\n'
    · rw [hc, List.count_cons_self, Nat.add_comm]
      rfl
    · rw [List.count_eq_zero.2 (mt lineFeed_mem_iff.1 hc), List.count_cons_of_ne hc, Nat.zero_add]

theorem bytes_append (s t : String) : bytes (s ++ t) = bytes s ++ bytes t := by
  rw [bytes_eq, bytes_eq, bytes_eq, String.toList_append, List.flatMap_append]

/-! ## White space at the ends -/

/-- A printed ASCII character is not white. -/
theorem isWhite_of_printed (hb : b ∈ String.utf8EncodeChar c) (hprinted : 0x20 < b ∧ b < 0x80) :
    isWhite c = false := by
  obtain ⟨-, hnumber⟩ := eq_singleton_of_mem hb hprinted.2
  have hlow := UInt8.lt_iff_toNat_lt.1 hprinted.1
  have hhigh := UInt8.lt_iff_toNat_lt.1 hprinted.2
  simp only [UInt8.reduceToNat] at hlow hhigh
  simp only [isWhite, hnumber, Bool.or_eq_false_iff, Bool.and_eq_false_iff,
    decide_eq_false_iff_not, beq_eq_false_iff_ne]
  omega

/-- Characters that are white at neither end are left as they are. -/
theorem trimChars_eq_self (hfirst : ∀ c ∈ cs.head?, isWhite c = false)
    (hlast : ∀ c ∈ cs.getLast?, isWhite c = false) : trimChars cs = cs := by
  have hkeep {cs : List Char} (h : ∀ c ∈ cs.head?, isWhite c = false) :
      cs.dropWhile isWhite = cs := by
    cases cs with
    | nil => rfl
    | cons c cs => exact List.dropWhile_cons_of_neg (by simp [h c rfl])
  rw [trimChars, hkeep hfirst, hkeep (by rwa [List.head?_reverse]), List.reverse_reverse]

/-- White characters at the end make no difference. -/
theorem trimChars_append_white {tail : List Char} (h : ∀ c ∈ tail, isWhite c = true) :
    trimChars (cs ++ tail) = trimChars cs := by
  have htail : tail.dropWhile isWhite = [] := List.dropWhile_eq_nil_iff.2 h
  have hback : ∀ c ∈ tail.reverse, isWhite c = true := fun c hc => h c (List.mem_reverse.1 hc)
  rw [trimChars, trimChars, List.dropWhile_append]
  split
  · rename_i hblank
    rw [htail, List.isEmpty_iff.1 hblank]
  · rw [List.reverse_append, List.dropWhile_append_of_pos hback]

/-- **A text between printed ASCII characters** has no white space at its ends. -/
theorem trim_eq_self (h : bytes s = a :: (inner ++ [z])) (ha : 0x20 < a ∧ a < 0x80)
    (hz : 0x20 < z ∧ z < 0x80) : trim s = s := by
  rw [bytes_eq] at h
  refine (congrArg String.ofList (trimChars_eq_self (fun c hc => ?_) fun c hc => ?_)).trans
    s.ofList_toList
  · obtain ⟨cs, hcs⟩ := List.head?_eq_some_iff.1 hc
    rw [hcs, List.flatMap_cons] at h
    obtain ⟨b, more, hb⟩ := List.exists_cons_of_ne_nil (String.utf8EncodeChar_ne_nil (c := c))
    rw [hb, List.cons_append] at h
    obtain ⟨rfl, -⟩ := List.cons.inj h
    exact isWhite_of_printed (by rw [hb]; exact List.mem_cons_self) ha
  · obtain ⟨cs, hcs⟩ := List.getLast?_eq_some_iff.1 hc
    rw [hcs, List.flatMap_append, List.flatMap_singleton, ← List.cons_append] at h
    have hb := List.dropLast_concat_getLast (String.utf8EncodeChar_ne_nil (c := c))
    rw [← hb, ← List.append_assoc] at h
    obtain ⟨-, hlast⟩ := List.append_inj' h rfl
    obtain ⟨hlast, -⟩ := List.cons.inj hlast
    exact isWhite_of_printed (hlast ▸ List.getLast_mem _) hz

end WarcStream.Text
