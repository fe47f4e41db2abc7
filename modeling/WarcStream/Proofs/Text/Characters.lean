import WarcStream.Text.Utf8
/-!
# Whole characters

A text may arrive in pieces that end inside a character. `completeLength` of
what has arrived counts the whole characters, and `completeLength_append` says
what is left behind them: at most three octets, which the rest of the text
completes, and none once all of the text is there. `bytes_ofList` is for texts
of ASCII characters, whose octets are the characters themselves.
-/

namespace WarcStream.Text

/-- These are the octets of characters. -/
def IsWhole (bs : Bytes) : Prop := ∃ cs : List Char, bs = cs.flatMap String.utf8EncodeChar

variable {xs ys rest : Bytes} {c : Char}

theorem bytes_eq (s : String) : bytes s = s.toList.flatMap String.utf8EncodeChar := by
  rw [bytes, ← String.utf8Encode_toList, List.utf8Encode, List.data_toByteArray]

theorem isWhole_bytes (s : String) : IsWhole (bytes s) := ⟨s.toList, bytes_eq s⟩

/-- The character at the front is found, whatever is behind it. -/
theorem characterLength?_append (c : Char) (rest : Bytes) :
    characterLength? (String.utf8EncodeChar c ++ rest) =
      some (String.utf8EncodeChar c).length := by
  have hvalid := c.valid
  simp only [UInt32.isValidChar, Nat.isValidChar] at hvalid
  -- one case for each length of a character
  fun_cases String.utf8EncodeChar c
  all_goals
    simp only [List.cons_append, List.nil_append, characterLength?, isContinuation,
      UInt8.lt_iff_toNat_lt, UInt8.le_iff_toNat_le, UInt8.toNat_ofNat', UInt8.reduceToNat,
      Bool.and_eq_true, Bool.or_eq_true, decide_eq_true_eq, bne_iff_ne, ne_eq, List.length_cons,
      List.length_nil, ← UInt8.toNat_inj, Nat.reducePow]
  · rw [if_pos (by omega)]
  · rw [if_neg (by omega), if_pos (by omega), if_pos (by omega)]
  · rw [if_neg (by omega), if_neg (by omega), if_pos (by omega), if_pos (by omega)]
  · rw [if_neg (by omega), if_neg (by omega), if_neg (by omega), if_pos (by omega),
      if_pos (by omega)]

/-- The start of a character is none. -/
theorem characterLength?_of_append_eq (h : xs ++ ys = String.utf8EncodeChar c) (hxs : xs ≠ [])
    (hys : ys ≠ []) : characterLength? xs = none := by
  obtain ⟨a, xs, rfl⟩ := List.exists_cons_of_ne_nil hxs
  obtain ⟨y, ys, rfl⟩ := List.exists_cons_of_ne_nil hys
  have hvalid := c.valid
  simp only [UInt32.isValidChar, Nat.isValidChar] at hvalid
  revert h
  fun_cases String.utf8EncodeChar c
  all_goals
    intro h
    rw [List.cons_append] at h
    obtain ⟨rfl, h⟩ := List.cons.inj h
    simp only [characterLength?, UInt8.lt_iff_toNat_lt, UInt8.le_iff_toNat_le,
      UInt8.toNat_ofNat', UInt8.reduceToNat, Bool.and_eq_true, decide_eq_true_eq, Nat.reducePow]
  · simp at h
  · rw [if_neg (by omega), if_pos (by omega)]
    match xs with
    | [] => rfl
    | _ :: _ => simp at h
  · rw [if_neg (by omega), if_neg (by omega), if_pos (by omega)]
    match xs with
    | [] | [_] => rfl
    | _ :: _ :: _ => simp at h
  · rw [if_neg (by omega), if_neg (by omega), if_neg (by omega), if_pos (by omega)]
    match xs with
    | [] | [_] | [_, _] => rfl
    | _ :: _ :: _ :: _ => simp at h

/-- The octets that are due are passed over. -/
theorem go_append (xs rest : Bytes) (done : Nat) :
    completeLength.go (xs ++ rest) xs.length done = completeLength.go rest 0 done := by
  induction xs with
  | nil => rfl
  | cons b more ih => exact ih

/-- A character at the front counts with its length. -/
theorem go_character (c : Char) (rest : Bytes) (done : Nat) :
    completeLength.go (String.utf8EncodeChar c ++ rest) 0 done =
      completeLength.go rest 0 (done + (String.utf8EncodeChar c).length) := by
  have hfound := characterLength?_append c rest
  obtain ⟨b, more, hc⟩ := List.exists_cons_of_ne_nil (String.utf8EncodeChar_ne_nil (c := c))
  rw [hc, List.cons_append] at hfound ⊢
  rw [completeLength.go, hfound]
  exact go_append more rest _

theorem go_eq_add_of_isWhole (h : IsWhole (xs ++ ys)) (done : Nat) :
    ∃ whole part, xs = whole ++ part ∧ completeLength.go xs 0 done = done + whole.length ∧
      part.length ≤ 3 ∧ IsWhole (part ++ ys) ∧ (ys = [] → part = []) := by
  obtain ⟨cs, h⟩ := h
  -- along the characters, as far as they have arrived whole
  induction cs generalizing xs done with
  | nil =>
    obtain ⟨rfl, rfl⟩ := List.append_eq_nil_iff.1 h
    exact ⟨[], [], rfl, rfl, by simp, ⟨[], rfl⟩, fun _ => rfl⟩
  | cons c cs ih =>
    rw [List.flatMap_cons] at h
    rcases List.append_eq_append_iff.1 h with ⟨after, hc, hys⟩ | ⟨after, rfl, hrest⟩
    · by_cases hafter : after = []
      · subst hafter
        rw [List.append_nil] at hc
        obtain rfl := hc
        refine ⟨String.utf8EncodeChar c, [], (List.append_nil _).symm, ?_, by simp, ⟨cs, hys⟩,
          fun _ => rfl⟩
        have hgo := go_character c [] done
        rwa [List.append_nil] at hgo
      · by_cases hxs : xs = []
        · subst hxs
          exact ⟨[], [], rfl, rfl, by simp, ⟨c :: cs, h⟩, fun _ => rfl⟩
        · have hnone := characterLength?_of_append_eq hc.symm hxs hafter
          refine ⟨[], xs, rfl, ?_, ?_, ⟨c :: cs, h⟩, fun hnil => ?_⟩
          · obtain ⟨b, more, rfl⟩ := List.exists_cons_of_ne_nil hxs
            rw [completeLength.go, hnone]
            rfl
          · have hlen := congrArg List.length hc
            rw [String.length_utf8EncodeChar, List.length_append] at hlen
            have := c.utf8Size_le_four
            have := List.length_pos_iff.2 hafter
            omega
          · rw [hnil] at hys
            exact absurd (List.append_eq_nil_iff.1 hys.symm).1 hafter
    · obtain ⟨whole, part, rfl, hgo, hpart, hwhole, hlast⟩ :=
        ih (done + (String.utf8EncodeChar c).length) hrest.symm
      refine ⟨String.utf8EncodeChar c ++ whole, part, (List.append_assoc ..).symm, ?_, hpart,
        hwhole, hlast⟩
      rw [go_character, hgo, List.length_append, Nat.add_assoc]

/-- **What is left behind the whole characters** of the start of a text: at most three octets, which
open what is still to come, and none where nothing is. -/
theorem completeLength_append (h : IsWhole (xs ++ ys)) :
    ∃ whole part, xs = whole ++ part ∧ completeLength xs = whole.length ∧ part.length ≤ 3 ∧
      IsWhole (part ++ ys) ∧ (ys = [] → part = []) := by
  obtain ⟨whole, part, hxs, hgo, hpart⟩ := go_eq_add_of_isWhole h 0
  exact ⟨whole, part, hxs, hgo.trans (Nat.zero_add _), hpart⟩

/-- A text of ASCII characters has them as its octets. -/
theorem bytes_ofList (bs : Bytes) (h : ∀ b ∈ bs, b < 0x80) :
    bytes (String.ofList (bs.map Char.ofUInt8)) = bs := by
  rw [bytes_eq, String.toList_ofList]
  induction bs with
  | nil => rfl
  | cons b rest ih =>
    have hb : b.toNat < 0x80 := UInt8.lt_iff_toNat_lt.1 (h b List.mem_cons_self)
    have hone : String.utf8EncodeChar (Char.ofUInt8 b) = [b] := by
      have hval : (Char.ofUInt8 b).val.toNat = b.toNat := UInt8.toNat_toUInt32 b
      rw [String.utf8EncodeChar]
      simp only [hval]
      rw [if_pos (by omega), UInt8.ofNat_toNat]
    rw [List.map_cons, List.flatMap_cons, hone, ih fun c hc => h c (List.mem_cons_of_mem b hc)]
    rfl

end WarcStream.Text
