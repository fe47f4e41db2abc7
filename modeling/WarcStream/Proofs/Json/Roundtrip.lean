import WarcStream.Json.Printer
import WarcStream.Proofs.Json.Grammar
import WarcStream.Proofs.Text.Characters
import WarcStream.Proofs.Value
/-!
# JSON text reads back

What is printed of a value is a text of the grammar (`spells_print`), and so the
machine reads it as that value with its entries in the order of their keys
(`parse_print`). Blanks behind it do not matter.
-/

namespace WarcStream.Json

open Text

variable {v : Value} {depth : Nat}

/-! ## Strings -/

section Strings

variable {xs bs : Bytes}

theorem codePoint_of_lt {n : Nat} (h : n < 0x80) : codePoint n = [UInt8.ofNat n] := by
  have hchar : Char.ofNat n = Char.ofUInt8 (UInt8.ofNat n) := by
    have hall : ∀ n < 0x80, Char.ofNat n = Char.ofUInt8 (UInt8.ofNat n) := by decide
    exact hall n h
  have hsmall : UInt8.ofNat n < 0x80 := by
    rw [UInt8.lt_iff_toNat_lt, UInt8.toNat_ofNat']
    simp only [UInt8.reduceToNat, Nat.reducePow]
    omega
  have hbytes := bytes_ofList [UInt8.ofNat n] (by simpa using hsmall)
  rw [codePoint, hchar]
  exact hbytes

theorem unitValue?_escape {n : Nat} (h : n < 0x20) :
    unitValue? [0x30, 0x30, Bytes.hexDigit (n / 16), Bytes.hexDigit (n % 16)] = some n := by
  have hall : ∀ n < 0x20,
      unitValue? [0x30, 0x30, Bytes.hexDigit (n / 16), Bytes.hexDigit (n % 16)] = some n := by
    decide
  exact hall n h

/-- An escape is a letter behind a backslash, or the number of a control character, and other
octets stand as they are. -/
theorem escapeOctet_cases (b : UInt8) :
    (∃ letter, escapeOctet b = [0x5c, letter] ∧ escaped? letter = some b ∧ letter ≠ 0x75 ∧
      0x20 ≤ letter) ∨
    (b.toNat < 0x20 ∧ escapeOctet b =
      [0x5c, 0x75, 0x30, 0x30, Bytes.hexDigit (b.toNat / 16), Bytes.hexDigit (b.toNat % 16)]) ∨
    (escapeOctet b = [b] ∧ b ≠ 0x22 ∧ b ≠ 0x5c ∧ ¬ b < 0x20) := by
  fun_cases escapeOctet b with
  | case8 _ _ _ _ _ _ _ hlow => exact .inr (.inl ⟨UInt8.lt_iff_toNat_lt.1 hlow, rfl⟩)
  | case9 hquote hbackslash _ _ _ _ _ hlow => exact .inr (.inr ⟨rfl, hquote, hbackslash, hlow⟩)
  | _ =>
    refine .inl ⟨_, rfl, ?_, by decide, by decide⟩
    subst_vars
    rfl

/-- An octet stands behind its escape. -/
theorem unescapes_escapeOctet (b : UInt8) (h : Unescapes xs bs) :
    Unescapes (escapeOctet b ++ xs) (b :: bs) := by
  rcases escapeOctet_cases b with
    ⟨letter, hescape, hletter, -, -⟩ | ⟨hlow, hescape⟩ | ⟨hescape, hquote, hbackslash, hlow⟩
  · rw [hescape]
    exact .letter hletter h
  · have htrail : isTrail b.toNat = false := by
      simp only [isTrail, Bool.and_eq_false_iff, decide_eq_false_iff_not]
      omega
    have hlead : isLead b.toNat = false := by
      simp only [isLead, Bool.and_eq_false_iff, decide_eq_false_iff_not]
      omega
    have hcode := codePoint_of_lt (Nat.lt_trans hlow (by decide : 0x20 < 0x80))
    have hunit := Unescapes.unit rfl (unitValue?_escape hlow) htrail hlead h
    rw [hcode, UInt8.ofNat_toNat] at hunit
    rw [hescape]
    exact hunit
  · rw [hescape]
    exact .plain hquote hbackslash hlow h

/-- The octets of a text stand behind their escapes. -/
theorem unescapes_escaped (bs : Bytes) : Unescapes (bs.flatMap escapeOctet) bs := by
  induction bs with
  | nil => exact .nil
  | cons b rest ih =>
    rw [List.flatMap_cons]
    exact unescapes_escapeOctet b ih

/-- **A text between quotes** is the text. -/
theorem quotes_printString (s : String) : Quotes (printString s) s :=
  .intro (unescapes_escaped (Text.bytes s)) (ofBytes?_bytes s)

theorem names_printString (s : String) : Names (printString s) s := by
  have hname := Names.intro blank_nil (quotes_printString s) blank_nil
  rwa [List.nil_append, List.append_nil] at hname

end Strings

/-! ## Numbers -/

section Numbers

variable {n : Nat}

/-- A digit of a natural number. -/
def digit (n : Nat) : UInt8 := UInt8.ofNat (0x30 + n)

theorem isDigit_digit (h : n < 10) : Bytes.isDigit (digit n) = true := by
  have hall : ∀ n < 10, Bytes.isDigit (digit n) = true := by decide
  exact hall n h

theorem digitValue_digit (h : n < 10) : Bytes.digitValue (digit n) = n := by
  have hall : ∀ n < 10, Bytes.digitValue (digit n) = n := by decide
  exact hall n h

/-- What has been read of a natural number once all its digits have been. -/
def numeralOf (n : Nat) : Numeral := if n = 0 then .zero false else .integer false n

/-- **A natural number** is spelled by its digits. -/
theorem spells_decimal (h : n ≤ maxNatural) :
    Numeral.Spells (Bytes.decimal n) (numeralOf n) := by
  -- along the digits, from the last one
  fun_induction Bytes.decimal n with
  | case1 n hn =>
    refine .first ?_
    by_cases hzero : n = 0
    · subst hzero
      rfl
    · have hne : digit n ≠ 0x30 := by
        have hall : ∀ n < 10, n ≠ 0 → digit n ≠ 0x30 := by decide
        exact hall n hn hzero
      have hdigit := isDigit_digit hn
      have hvalue := digitValue_digit hn
      rw [digit] at hne hdigit hvalue
      rw [Numeral.first, if_neg hne, if_pos hdigit, hvalue, numeralOf, if_neg hzero]
  | case2 n hn ih =>
    have hlast : n % 10 < 10 := Nat.mod_lt n (by decide)
    have hwhole : n / 10 * 10 + n % 10 = n := by omega
    have hstep : Numeral.step (digit (n % 10)) (numeralOf (n / 10)) = .more (numeralOf n) := by
      rw [numeralOf, if_neg (by omega), numeralOf, if_neg (by omega), Numeral.step,
        if_pos (isDigit_digit hlast), digitValue_digit hlast]
      simp only
      rw [hwhole, if_neg (Nat.not_lt.2 h)]
    exact .more (ih (by omega)) hstep

theorem finish_numeralOf (n : UInt64) : (numeralOf n.toNat).finish = .ok (.natural n) := by
  rw [numeralOf]
  by_cases hzero : n.toNat = 0
  · rw [if_pos hzero]
    have : n = 0 := UInt64.toNat_inj.1 hzero
    subst this
    rfl
  · rw [if_neg hzero]
    simp [Numeral.finish, Numeral.whole]

end Numbers

/-! ## Values -/

section Containers

variable {items : List Value} {entries : List (String × Value)}

/-- The items of a list, with the bracket behind them. -/
theorem spells_printItems (hv : Spells depth (print v) (.value v))
    (hitems : ∀ w ∈ items, Spells depth (print w) (.value w)) :
    ∃ inner, print v ++ printItems items = inner ++ [0x5d] ∧
      Spells depth inner (.items (v :: items)) := by
  induction items generalizing v with
  | nil => exact ⟨print v, rfl, .item hv⟩
  | cons w rest ih =>
    obtain ⟨inner, hinner, hspells⟩ := ih (hitems w List.mem_cons_self) fun x hx =>
      hitems x (List.mem_cons_of_mem w hx)
    refine ⟨print v ++ 0x2c :: inner, ?_, .items hv hspells⟩
    rw [printItems, hinner]
    simp only [List.append_assoc, List.cons_append]

/-- The members of an object, with the brace behind them. -/
theorem spells_printEntries (key : String) (hv : Spells depth (print v) (.value v))
    (hentries : ∀ entry ∈ entries, Spells depth (print entry.2) (.value entry.2)) :
    ∃ inner, printString key ++ 0x3a :: (print v ++ printEntries entries) = inner ++ [0x7d] ∧
      Spells depth inner (.entries ((key, v) :: entries)) := by
  induction entries generalizing v key with
  | nil =>
    refine ⟨_, ?_, .entry (names_printString key) hv⟩
    rw [printEntries, List.append_assoc]
    rfl
  | cons entry rest ih =>
    obtain ⟨key', w⟩ := entry
    obtain ⟨inner, hinner, hspells⟩ := ih key' (hentries (key', w) List.mem_cons_self)
      fun x hx => hentries x (List.mem_cons_of_mem _ hx)
    refine ⟨_, ?_, .entries (names_printString key) hv hspells⟩
    rw [printEntries, hinner]
    simp only [List.append_assoc, List.cons_append]

end Containers

/-- **What is printed of a plain value** is a text of it. -/
theorem spells_print {key : String → Prop} (h : v.Plain key depth) :
    Spells depth (print v) (.value v) := by
  induction h with
  | null => exact .null
  | bool b =>
    cases b with
    | true => exact .yes
    | false => exact .no
  | natural n =>
    have hsmall : n.toNat ≤ maxNatural := by
      have := n.toNat_lt
      rw [maxNatural]
      omega
    exact .number (spells_decimal hsmall) (finish_numeralOf n)
  | string s => exact .string (quotes_printString s)
  | @array depth items _ ih =>
    match items with
    | [] => exact .noItems blank_nil
    | v :: rest =>
      obtain ⟨inner, hinner, hspells⟩ := spells_printItems (ih v List.mem_cons_self) fun w hw =>
        ih w (List.mem_cons_of_mem v hw)
      rw [print, hinner]
      exact .array hspells
  | @object depth entries _ _ ih =>
    match entries with
    | [] => exact .noEntries blank_nil
    | (key, v) :: rest =>
      obtain ⟨inner, hinner, hspells⟩ :=
        spells_printEntries key (ih (key, v) List.mem_cons_self) fun w hw =>
          ih w (List.mem_cons_of_mem _ hw)
      rw [print, hinner]
      exact .object hspells

/-- **What is printed is read back**, with its entries in the order of their keys and whatever
blanks are behind it. -/
theorem parse_print {key : String → Prop} {depth : Nat} {blanks : Bytes} (h : v.Plain key depth)
    (hdepth : depth ≤ maxDepth) (hblanks : ∀ b ∈ blanks, isSpace b = true) :
    parse (print v ++ blanks) = .ok v.sorted :=
  parse_of_spells ((spells_print h).blanks hblanks) hdepth

end WarcStream.Json
