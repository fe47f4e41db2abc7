import WarcStream.Base64
/-!
# Base64 reads back

Octets are read back from their text (`decode_encode`): a group of four
symbols stands for the three octets it was made of, and the padding tells how
many octets the last group holds.
-/

namespace WarcStream.Base64

variable {offset m n k : Nat}

/-- A symbol stands for its number. -/
theorem value?_symbol (h : n < 64) : value? (symbol n) = some n := by
  have hall : ∀ n < 64, value? (symbol n) = some n := by decide
  exact hall n h

theorem symbol_ne_pad (h : n < 64) : symbol n ≠ pad := by
  have hall : ∀ n < 64, symbol n ≠ pad := by decide
  exact hall n h

/-- Symbols are ASCII characters. -/
theorem symbol_lt (h : n < 64) : symbol n < 0x80 := by
  have hall : ∀ n < 64, symbol n < 0x80 := by decide
  exact hall n h

theorem valueAt_symbol (h : n < 64) : valueAt offset (symbol n) = .ok n := by
  rw [valueAt, value?_symbol h]

theorem ofNat_eq {a : UInt8} (h : n = a.toNat) : UInt8.ofNat n = a := by
  rw [h, UInt8.ofNat_toNat]

theorem lastSymbols_symbol (h : n < 64) (index : Nat) (rest : Bytes) :
    lastSymbols offset (symbol n :: rest) index 0 =
      (lastSymbols offset rest (index + 1) 0).map fun (symbols, padding) =>
        ((n, symbol n) :: symbols, padding) := by
  rw [lastSymbols, if_neg (symbol_ne_pad h), if_neg (Nat.lt_irrefl 0), valueAt_symbol h]
  cases lastSymbols offset rest (index + 1) 0 <;> rfl

theorem decodeGroup_symbols (a b c : UInt8) :
    decodeGroup offset (symbol (a.toNat / 4)) (symbol (a.toNat % 4 * 16 + b.toNat / 16))
        (symbol (b.toNat % 16 * 4 + c.toNat / 64)) (symbol (c.toNat % 64)) =
      .ok [a, b, c] := by
  have ha := a.toNat_lt
  have hb := b.toNat_lt
  have hc := c.toNat_lt
  rw [decodeGroup, valueAt_symbol (by omega), valueAt_symbol (by omega), valueAt_symbol (by omega),
    valueAt_symbol (by omega)]
  refine congrArg Except.ok ?_
  rw [ofNat_eq (a := a) (by omega), ofNat_eq (a := b) (by omega), ofNat_eq (a := c) (by omega)]

section Last

variable {group : Bytes} {w x y z : Nat} {a b c d : UInt8}

theorem decodeLast_of_two (h : lastSymbols offset group 0 0 = .ok ([(w, a), (x, b)], 2))
    (hx : x % 16 = 0) : decodeLast offset group = .ok [UInt8.ofNat (w * 4 + x / 16)] := by
  rw [decodeLast, h]
  simp [bind, Except.bind, pure, Except.pure, hx]

theorem decodeLast_of_three (h : lastSymbols offset group 0 0 = .ok ([(w, a), (x, b), (y, c)], 1))
    (hy : y % 4 = 0) :
    decodeLast offset group =
      .ok [UInt8.ofNat (w * 4 + x / 16), UInt8.ofNat (x % 16 * 16 + y / 4)] := by
  rw [decodeLast, h]
  simp [bind, Except.bind, pure, Except.pure, hy]

theorem decodeLast_of_four
    (h : lastSymbols offset group 0 0 = .ok ([(w, a), (x, b), (y, c), (z, d)], 0)) :
    decodeLast offset group =
      .ok [UInt8.ofNat (w * 4 + x / 16), UInt8.ofNat (x % 16 * 16 + y / 4),
        UInt8.ofNat (y % 4 * 64 + z)] := by
  rw [decodeLast, h]
  simp [bind, Except.bind, pure, Except.pure]

/-- The last group stands for the octets left over. -/
theorem decodeLast_encode (hne : group ≠ []) (hlen : group.length ≤ 3) :
    decodeLast offset (encode group) = .ok group := by
  match group with
  | [a] =>
    have ha := a.toNat_lt
    have hsymbols : lastSymbols offset (encode [a]) 0 0 =
        .ok ([(a.toNat / 4, symbol (a.toNat / 4)),
          (a.toNat % 4 * 16, symbol (a.toNat % 4 * 16))], 2) := by
      rw [encode, lastSymbols_symbol (by omega), lastSymbols_symbol (by omega)]
      rfl
    rw [decodeLast_of_two hsymbols (by omega), ofNat_eq (a := a) (by omega)]
  | [a, b] =>
    have ha := a.toNat_lt
    have hb := b.toNat_lt
    have hsymbols : lastSymbols offset (encode [a, b]) 0 0 =
        .ok ([(a.toNat / 4, symbol (a.toNat / 4)),
          (a.toNat % 4 * 16 + b.toNat / 16, symbol (a.toNat % 4 * 16 + b.toNat / 16)),
          (b.toNat % 16 * 4, symbol (b.toNat % 16 * 4))], 1) := by
      rw [encode, lastSymbols_symbol (by omega), lastSymbols_symbol (by omega),
        lastSymbols_symbol (by omega)]
      rfl
    rw [decodeLast_of_three hsymbols (by omega), ofNat_eq (a := a) (by omega),
      ofNat_eq (a := b) (by omega)]
  | [a, b, c] =>
    have ha := a.toNat_lt
    have hb := b.toNat_lt
    have hc := c.toNat_lt
    have hsymbols : lastSymbols offset (encode [a, b, c]) 0 0 =
        .ok ([(a.toNat / 4, symbol (a.toNat / 4)),
          (a.toNat % 4 * 16 + b.toNat / 16, symbol (a.toNat % 4 * 16 + b.toNat / 16)),
          (b.toNat % 16 * 4 + c.toNat / 64, symbol (b.toNat % 16 * 4 + c.toNat / 64)),
          (c.toNat % 64, symbol (c.toNat % 64))], 0) := by
      rw [encode, lastSymbols_symbol (by omega), lastSymbols_symbol (by omega),
        lastSymbols_symbol (by omega), lastSymbols_symbol (by omega)]
      rfl
    rw [decodeLast_of_four hsymbols, ofNat_eq (a := a) (by omega), ofNat_eq (a := b) (by omega),
      ofNat_eq (a := c) (by omega)]
  | _ :: _ :: _ :: _ :: _ =>
    simp only [List.length_cons] at hlen
    omega

end Last

theorem encode_ne_nil {bs : Bytes} (hne : bs ≠ []) : encode bs ≠ [] := by
  match bs with
  | [_] | [_, _] | _ :: _ :: _ :: _ => simp [encode]

theorem decodeGroups_encode (offset : Nat) {bs : Bytes} (hne : bs ≠ []) :
    decodeGroups offset (encode bs) = .ok bs := by
  fun_induction encode bs generalizing offset with
  | case1 => exact absurd rfl hne
  | case2 a => exact decodeLast_encode hne (by simp)
  | case3 a b => exact decodeLast_encode hne (by simp)
  | case4 a b c rest ih =>
    match hrest : rest with
    | [] => exact decodeLast_encode hne (by simp)
    | d :: more =>
      obtain ⟨e, es, hcons⟩ := List.exists_cons_of_ne_nil (encode_ne_nil (List.cons_ne_nil d more))
      have hback := ih (offset + 4) (by simp)
      rw [hcons] at hback ⊢
      rw [decodeGroups, decodeGroup_symbols, hback]
      rfl

theorem length_encode_mod (bs : Bytes) : (encode bs).length % 4 = 0 := by
  fun_induction encode bs with
  | case1 | case2 | case3 => simp
  | case4 a b c rest ih =>
    simp only [List.length_cons]
    omega

/-- The text is made of ASCII characters. -/
theorem lt_of_mem_encode {bs : Bytes} {b : UInt8} (h : b ∈ encode bs) : b < 0x80 := by
  have hpad : pad < 0x80 := by decide
  fun_induction encode bs with
  | case1 => simp at h
  | case2 a =>
    have := a.toNat_lt
    simp only [List.mem_cons, List.not_mem_nil, or_false] at h
    rcases h with rfl | rfl | rfl | rfl
    · exact symbol_lt (by omega)
    · exact symbol_lt (by omega)
    · exact hpad
    · exact hpad
  | case3 a b =>
    have := a.toNat_lt
    have := b.toNat_lt
    simp only [List.mem_cons, List.not_mem_nil, or_false] at h
    rcases h with rfl | rfl | rfl | rfl
    · exact symbol_lt (by omega)
    · exact symbol_lt (by omega)
    · exact symbol_lt (by omega)
    · exact hpad
  | case4 a b c rest ih =>
    have := a.toNat_lt
    have := b.toNat_lt
    have := c.toNat_lt
    simp only [List.mem_cons] at h
    rcases h with rfl | rfl | rfl | rfl | h
    · exact symbol_lt (by omega)
    · exact symbol_lt (by omega)
    · exact symbol_lt (by omega)
    · exact symbol_lt (by omega)
    · exact ih h

/-- **Octets are read back from their text.** -/
theorem decode_encode (bs : Bytes) : decode (encode bs) = .ok bs := by
  by_cases hne : bs = []
  · rw [hne]
    rfl
  · have hgroups := decodeGroups_encode 0 hne
    have hmod := length_encode_mod bs
    have hlast := List.getLast?_eq_some_getLast (encode_ne_nil hne)
    rw [decode.eq_2 _ (encode_ne_nil hne), hlast]
    simp only
    rw [if_neg (by omega), hgroups]

end WarcStream.Base64
