import WarcStream.Proofs.Base64
import WarcStream.Proofs.Success
/-!
# The canonical text of octets

`Writes` says in bits what the canonical text of octets is: the symbols of
sextets that spell the bits of the octets with fewer than six zeros behind
them, filled up with padding to a multiple of four. There is exactly one such
text (`writes_iff`), and it is the only one that is read (`decode_eq_ok_iff`).
-/

namespace WarcStream.Base64

variable {data text text' group : Bytes} {m n v w x y z offset index padding total : Nat}
variable {a b c d : UInt8} {symbols : List (Nat × UInt8)} {xs ys : List Nat}

/-! ## Bits -/

/-- The lowest bits of a number, the highest of them first. -/
def bitsOf : (width : Nat) → Nat → List Bool
  | 0, _ => []
  | width + 1, n => bitsOf width (n / 2) ++ [decide (n % 2 = 1)]

@[simp] theorem length_bitsOf (width n : Nat) : (bitsOf width n).length = width := by
  induction width generalizing n with
  | zero => rfl
  | succ width ih => rw [bitsOf, List.length_append, ih, List.length_singleton]

/-- The upper bits stand in front of the lower ones. -/
theorem bitsOf_add (w v n : Nat) : bitsOf (w + v) n = bitsOf w (n / 2 ^ v) ++ bitsOf v n := by
  induction v generalizing n with
  | zero => simp [bitsOf]
  | succ v ih =>
    rw [← Nat.add_assoc, bitsOf, ih, bitsOf, Nat.div_div_eq_div_mul, ← Nat.pow_succ',
      List.append_assoc]

/-- Numbers have the same lowest bits just if they have the same remainder. -/
theorem bitsOf_inj : bitsOf w m = bitsOf w n ↔ m % 2 ^ w = n % 2 ^ w := by
  induction w generalizing m n with
  | zero => simp [bitsOf, Nat.mod_one]
  | succ w ih =>
    rw [bitsOf, bitsOf, List.append_singleton_inj, ih, decide_eq_decide, Nat.pow_succ', Nat.mod_mul,
      Nat.mod_mul]
    omega

/-- A number put together from lower bits of one number and all bits of another. -/
theorem bitsOf_join (w v n m : Nat) (hm : m < 2 ^ v) :
    bitsOf (w + v) (n % 2 ^ w * 2 ^ v + m) = bitsOf w n ++ bitsOf v m := by
  have hupper : (n % 2 ^ w * 2 ^ v + m) / 2 ^ v = n % 2 ^ w := by
    rw [Nat.mul_comm, Nat.mul_add_div (Nat.two_pow_pos v), Nat.div_eq_of_lt hm, Nat.add_zero]
  rw [bitsOf_add, hupper, bitsOf_inj.2 (Nat.mod_mod n _), bitsOf_inj.2 (Nat.mul_add_mod' ..)]

theorem length_flatMap_bitsOf (w : Nat) (xs : List Nat) :
    (xs.flatMap (bitsOf w)).length = w * xs.length := by
  induction xs with
  | nil => rfl
  | cons x xs ih =>
    rw [List.flatMap_cons, List.length_append, length_bitsOf, ih, List.length_cons, Nat.mul_succ,
      Nat.add_comm]

/-- The bits of as many numbers of one width tell the numbers. -/
theorem flatMap_bitsOf_inj (hxs : ∀ n ∈ xs, n < 2 ^ w) (hys : ∀ n ∈ ys, n < 2 ^ w)
    (hlen : xs.length = ys.length) (h : xs.flatMap (bitsOf w) = ys.flatMap (bitsOf w)) :
    xs = ys := by
  induction xs generalizing ys with
  | nil => exact (List.length_eq_zero_iff.1 hlen.symm).symm
  | cons x xs ih =>
    match ys with
    | y :: ys =>
      rw [List.forall_mem_cons] at hxs hys
      rw [List.flatMap_cons, List.flatMap_cons] at h
      obtain ⟨hhead, htail⟩ := List.append_inj h (by simp)
      rw [bitsOf_inj, Nat.mod_eq_of_lt hxs.1, Nat.mod_eq_of_lt hys.1] at hhead
      rw [hhead, ih hxs.2 hys.2 (Nat.succ.inj hlen) htail]

/-! ## The canonical text -/

/-- The bits of octets, octet by octet. -/
def bits (data : Bytes) : List Bool := (data.map UInt8.toNat).flatMap (bitsOf 8)

/-- **The canonical text of octets**: sextets spell the bits of the octets and fewer than six zeros
behind them, and padding fills the text up to a multiple of four symbols. -/
def Writes (data text : Bytes) : Prop :=
  ∃ (sextets : List Nat) (zeros padding : Nat),
    (∀ n ∈ sextets, n < 64) ∧
    sextets.flatMap (bitsOf 6) = bits data ++ List.replicate zeros false ∧ zeros < 6 ∧
    text = sextets.map symbol ++ List.replicate padding pad ∧ padding < 4 ∧ text.length % 4 = 0

theorem bits_cons (a : UInt8) (data : Bytes) : bits (a :: data) = bitsOf 8 a.toNat ++ bits data :=
  rfl

/-- There is no other canonical text. -/
theorem Writes.unique (h : Writes data text) (h' : Writes data text') : text = text' := by
  obtain ⟨sextets, zeros, padding, hsmall, hbits, hzeros, rfl, hpadding, hlen⟩ := h
  obtain ⟨sextets', zeros', padding', hsmall', hbits', hzeros', rfl, hpadding', hlen'⟩ := h'
  have hcount := congrArg List.length hbits
  have hcount' := congrArg List.length hbits'
  simp only [bits, length_flatMap_bitsOf, List.length_append, List.length_map,
    List.length_replicate] at hcount hcount' hlen hlen'
  obtain rfl : zeros = zeros' := by omega
  obtain rfl : sextets = sextets' :=
    flatMap_bitsOf_inj hsmall hsmall' (by omega) (hbits.trans hbits'.symm)
  obtain rfl : padding = padding' := by omega
  rfl

/-- Three octets in front are four symbols in front. -/
theorem Writes.cons (h : Writes data text) (a b c : UInt8) :
    Writes (a :: b :: c :: data)
      (symbol (a.toNat / 4) :: symbol (a.toNat % 4 * 16 + b.toNat / 16) ::
        symbol (b.toNat % 16 * 4 + c.toNat / 64) :: symbol (c.toNat % 64) :: text) := by
  obtain ⟨sextets, zeros, padding, hsmall, hbits, hzeros, rfl, hpadding, hlen⟩ := h
  have ha := a.toNat_lt
  have hb := b.toNat_lt
  have hc := c.toNat_lt
  refine ⟨a.toNat / 4 :: (a.toNat % 4 * 16 + b.toNat / 16) :: (b.toNat % 16 * 4 + c.toNat / 64) ::
    (c.toNat % 64) :: sextets, zeros, padding, ?_, ?_, hzeros, rfl, hpadding, ?_⟩
  · simp only [List.forall_mem_cons]
    exact ⟨by omega, by omega, by omega, by omega, hsmall⟩
  · have hfirst : bitsOf 8 a.toNat = bitsOf 6 (a.toNat / 4) ++ bitsOf 2 a.toNat :=
      bitsOf_add 6 2 a.toNat
    have hsecond : bitsOf 8 b.toNat = bitsOf 4 (b.toNat / 16) ++ bitsOf 4 b.toNat :=
      bitsOf_add 4 4 b.toNat
    have hthird : bitsOf 8 c.toNat = bitsOf 2 (c.toNat / 64) ++ bitsOf 6 c.toNat :=
      bitsOf_add 2 6 c.toNat
    have hjoin : bitsOf 6 (a.toNat % 4 * 16 + b.toNat / 16) =
        bitsOf 2 a.toNat ++ bitsOf 4 (b.toNat / 16) :=
      bitsOf_join 2 4 a.toNat (b.toNat / 16) (by omega)
    have hjoin' : bitsOf 6 (b.toNat % 16 * 4 + c.toNat / 64) =
        bitsOf 4 b.toNat ++ bitsOf 2 (c.toNat / 64) :=
      bitsOf_join 4 2 b.toNat (c.toNat / 64) (by omega)
    have hlast : bitsOf 6 (c.toNat % 64) = bitsOf 6 c.toNat := bitsOf_inj.2 (Nat.mod_mod _ _)
    simp only [List.flatMap_cons, hbits, bits_cons, hfirst, hsecond, hthird, hjoin, hjoin', hlast,
      List.append_assoc]
  · simp only [List.length_cons] at hlen ⊢
    omega

/-- **What is written is the canonical text.** -/
theorem writes_encode (data : Bytes) : Writes data (encode data) := by
  fun_induction encode data with
  | case1 => exact ⟨[], 0, 0, by simp, rfl, by omega, rfl, by omega, rfl⟩
  | case2 a =>
    have ha := a.toNat_lt
    refine ⟨[a.toNat / 4, a.toNat % 4 * 16], 4, 2, ?_, ?_, by omega, rfl, by omega, by simp⟩
    · exact List.forall_mem_cons.2 ⟨by omega, List.forall_mem_singleton.2 (by omega)⟩
    · have hfirst : bitsOf 8 a.toNat = bitsOf 6 (a.toNat / 4) ++ bitsOf 2 a.toNat :=
        bitsOf_add 6 2 a.toNat
      have hjoin : bitsOf 6 (a.toNat % 4 * 16) = bitsOf 2 a.toNat ++ bitsOf 4 0 :=
        bitsOf_join 2 4 a.toNat 0 (by omega)
      simp only [List.flatMap_cons, bits_cons, hfirst, hjoin, List.append_assoc]
      rfl
  | case3 a b =>
    have ha := a.toNat_lt
    have hb := b.toNat_lt
    refine ⟨[a.toNat / 4, a.toNat % 4 * 16 + b.toNat / 16, b.toNat % 16 * 4], 2, 1, ?_, ?_,
      by omega, rfl, by omega, by simp⟩
    · exact List.forall_mem_cons.2 ⟨by omega,
        List.forall_mem_cons.2 ⟨by omega, List.forall_mem_singleton.2 (by omega)⟩⟩
    · have hfirst : bitsOf 8 a.toNat = bitsOf 6 (a.toNat / 4) ++ bitsOf 2 a.toNat :=
        bitsOf_add 6 2 a.toNat
      have hsecond : bitsOf 8 b.toNat = bitsOf 4 (b.toNat / 16) ++ bitsOf 4 b.toNat :=
        bitsOf_add 4 4 b.toNat
      have hjoin : bitsOf 6 (a.toNat % 4 * 16 + b.toNat / 16) =
          bitsOf 2 a.toNat ++ bitsOf 4 (b.toNat / 16) :=
        bitsOf_join 2 4 a.toNat (b.toNat / 16) (by omega)
      have hjoin' : bitsOf 6 (b.toNat % 16 * 4) = bitsOf 4 b.toNat ++ bitsOf 2 0 :=
        bitsOf_join 4 2 b.toNat 0 (by omega)
      simp only [List.flatMap_cons, bits_cons, hfirst, hsecond, hjoin, hjoin', List.append_assoc]
      rfl
  | case4 a b c rest ih => exact ih.cons a b c

theorem writes_iff : Writes data text ↔ text = encode data := by
  constructor
  · intro h
    exact h.unique (writes_encode data)
  · rintro rfl
    exact writes_encode data

/-! ## What is read -/

/-- A symbol that stands for a number is the symbol of that number. -/
theorem eq_symbol_of_value? (h : value? b = some n) : b = symbol n ∧ n < 64 := by
  have hall : ∀ k < 256, ((value? (UInt8.ofNat k)).all fun n =>
      decide (UInt8.ofNat k = symbol n ∧ n < 64)) = true := by
    decide +kernel
  have hb := hall b.toNat b.toNat_lt
  rw [UInt8.ofNat_toNat, h] at hb
  exact of_decide_eq_true hb

theorem eq_symbol_of_valueAt (h : valueAt offset b = .ok n) : b = symbol n ∧ n < 64 := by
  unfold valueAt at h
  split at h
  · rename_i k hk
    obtain rfl : k = n := by simpa using h
    exact eq_symbol_of_value? hk
  · cases h

theorem toNat_ofNat_lt (h : n < 256) : (UInt8.ofNat n).toNat = n := by
  rw [UInt8.toNat_ofNat']
  exact Nat.mod_eq_of_lt h

/-- Four symbols that are read are those of the octets they stand for. -/
theorem eq_of_decodeGroup (h : decodeGroup offset a b c d = .ok data) :
    ∃ p q r, data = [p, q, r] ∧
      [a, b, c, d] = [symbol (p.toNat / 4), symbol (p.toNat % 4 * 16 + q.toNat / 16),
        symbol (q.toNat % 16 * 4 + r.toNat / 64), symbol (r.toNat % 64)] := by
  simp only [decodeGroup, bind_eq_ok_iff, pure_eq_ok_iff] at h
  obtain ⟨w, ha, x, hb, y, hc, z, hd, rfl⟩ := h
  obtain ⟨rfl, hw⟩ := eq_symbol_of_valueAt ha
  obtain ⟨rfl, hx⟩ := eq_symbol_of_valueAt hb
  obtain ⟨rfl, hy⟩ := eq_symbol_of_valueAt hc
  obtain ⟨rfl, hz⟩ := eq_symbol_of_valueAt hd
  refine ⟨_, _, _, rfl, ?_⟩
  rw [toNat_ofNat_lt (by omega), toNat_ofNat_lt (by omega), toNat_ofNat_lt (by omega),
    show (w * 4 + x / 16) / 4 = w by omega,
    show (w * 4 + x / 16) % 4 * 16 + (x % 16 * 16 + y / 4) / 16 = x by omega,
    show (x % 16 * 16 + y / 4) % 16 * 4 + (y % 4 * 64 + z) / 64 = y by omega,
    show (y % 4 * 64 + z) % 64 = z by omega]

/-- The last symbols are symbols of their numbers, and nothing but padding is behind them. -/
theorem eq_of_lastSymbols (h : lastSymbols offset group index padding = .ok (symbols, total)) :
    padding ≤ total ∧ (0 < padding → symbols = []) ∧
      group = symbols.map Prod.snd ++ List.replicate (total - padding) pad ∧
      ∀ x ∈ symbols, x.2 = symbol x.1 ∧ x.1 < 64 := by
  induction group generalizing index padding symbols total with
  | nil =>
    simp only [lastSymbols, Except.ok.injEq, Prod.mk.injEq] at h
    obtain ⟨rfl, rfl⟩ := h
    simp
  | cons b rest ih =>
    unfold lastSymbols at h
    split at h
    · rename_i hpad
      split at h
      · cases h
      · obtain ⟨hle, hnone, rfl, -⟩ := ih h
        obtain rfl := hnone (Nat.succ_pos padding)
        refine ⟨by omega, fun _ => rfl, ?_, by simp⟩
        rw [hpad, List.map_nil, List.nil_append, List.nil_append, ← List.replicate_succ]
        congr 1
        omega
    · split at h
      · cases h
      · rename_i hpadding
        simp only [bind_eq_ok_iff, pure_eq_ok_iff, Prod.exists, Prod.mk.injEq] at h
        obtain ⟨n, hn, later, total', hrest, rfl, rfl⟩ := h
        obtain ⟨hle, -, rfl, hall⟩ := ih hrest
        refine ⟨hle, fun hpos => absurd hpos hpadding, rfl, List.forall_mem_cons.2 ⟨?_, hall⟩⟩
        exact eq_symbol_of_valueAt hn

/-- A last group that is read is that of the octets it stands for. -/
theorem eq_of_decodeLast (hlen : group.length ≤ 4) (h : decodeLast offset group = .ok data) :
    group = encode data := by
  simp only [decodeLast, bind_eq_ok_iff, Prod.exists] at h
  obtain ⟨symbols, padding, hsymbols, h⟩ := h
  obtain ⟨-, -, rfl, hall⟩ := eq_of_lastSymbols hsymbols
  rw [List.length_append, List.length_map, List.length_replicate] at hlen
  split at h
  · cases h
  · rename_i hmany
    split at h
    · cases h
    · rename_i hfour
      rw [Nat.sub_zero] at hlen ⊢
      -- the padding is what is missing of four symbols
      rcases symbols with
        _ | ⟨⟨w, _⟩, _ | ⟨⟨x, _⟩, _ | ⟨⟨y, _⟩, _ | ⟨⟨z, _⟩, _ | ⟨_, _⟩⟩⟩⟩⟩
      · simp at hmany
      · simp at hmany
      · simp only [List.length_cons, List.length_nil] at hlen hfour
        obtain rfl : padding = 2 := by omega
        simp only [List.forall_mem_cons] at hall
        obtain ⟨⟨rfl, hw⟩, ⟨rfl, hx⟩, -⟩ := hall
        simp only at h
        split at h
        · obtain rfl := pure_eq_ok_iff.1 h
          rw [encode, toNat_ofNat_lt (by omega), show (w * 4 + x / 16) / 4 = w by omega,
            show (w * 4 + x / 16) % 4 * 16 = x by omega]
          rfl
        · cases h
      · simp only [List.length_cons, List.length_nil] at hlen hfour
        obtain rfl : padding = 1 := by omega
        simp only [List.forall_mem_cons] at hall
        obtain ⟨⟨rfl, hw⟩, ⟨rfl, hx⟩, ⟨rfl, hy⟩, -⟩ := hall
        simp only at h
        split at h
        · obtain rfl := pure_eq_ok_iff.1 h
          rw [encode, toNat_ofNat_lt (by omega), toNat_ofNat_lt (by omega),
            show (w * 4 + x / 16) / 4 = w by omega,
            show (w * 4 + x / 16) % 4 * 16 + (x % 16 * 16 + y / 4) / 16 = x by omega,
            show (x % 16 * 16 + y / 4) % 16 * 4 = y by omega]
          rfl
        · cases h
      · simp only [List.length_cons, List.length_nil] at hlen hfour
        obtain rfl : padding = 0 := by omega
        simp only [List.forall_mem_cons] at hall
        obtain ⟨⟨rfl, hw⟩, ⟨rfl, hx⟩, ⟨rfl, hy⟩, ⟨rfl, hz⟩, -⟩ := hall
        obtain rfl := pure_eq_ok_iff.1 h
        rw [encode, toNat_ofNat_lt (by omega), toNat_ofNat_lt (by omega),
          toNat_ofNat_lt (by omega), show (w * 4 + x / 16) / 4 = w by omega,
          show (w * 4 + x / 16) % 4 * 16 + (x % 16 * 16 + y / 4) / 16 = x by omega,
          show (x % 16 * 16 + y / 4) % 16 * 4 + (y % 4 * 64 + z) / 64 = y by omega,
          show (y % 4 * 64 + z) % 64 = z by omega]
        rfl
      · simp only [List.length_cons] at hlen
        omega

theorem eq_of_decodeGroups (h : decodeGroups offset text = .ok data) : text = encode data := by
  fun_induction decodeGroups offset text generalizing data with
  | case1 offset a b c d e rest ih =>
    simp only [bind_eq_ok_iff, pure_eq_ok_iff] at h
    obtain ⟨front, hfront, back, hback, rfl⟩ := h
    obtain ⟨p, q, r, rfl, hsymbols⟩ := eq_of_decodeGroup hfront
    have happend : a :: b :: c :: d :: e :: rest = [a, b, c, d] ++ e :: rest := rfl
    rw [happend, hsymbols, ih hback]
    rfl
  | case2 offset group hshort =>
    refine eq_of_decodeLast ?_ h
    match group with
    | [] | [_] | [_, _] | [_, _, _] | [_, _, _, _] => simp
    | a :: b :: c :: d :: e :: rest => exact absurd rfl (hshort a b c d e rest)

/-- **A text is read** just if it is the canonical text of what it stands for. -/
theorem decode_eq_ok_iff : decode text = .ok data ↔ Writes data text := by
  rw [writes_iff]
  constructor
  · intro h
    unfold decode at h
    split at h
    · cases h
      rfl
    · split at h
      · split at h
        · cases h
        · exact eq_of_decodeGroups h
      · rename_i hnone _ hlast
        exact absurd (List.getLast?_eq_none_iff.1 hlast) hnone
  · rintro rfl
    exact decode_encode data

end WarcStream.Base64
