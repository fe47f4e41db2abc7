import WarcStream.Proofs.Json.Prefix
import WarcStream.Proofs.Text.Trimming
import Mathlib.Data.List.Basic
/-!
# Printed values as texts

What is printed of a plain value are the octets of characters
(`isWhole_print`): an escape is ASCII, and takes the place of an ASCII character.
So a printed object is a text, on one line, with no white space at its ends
(`exists_text_print`).
-/

namespace WarcStream.Json

open Text

variable {xs : Bytes} {b : UInt8} {v : Value}

/-! ## Strings -/

/-- An escape takes the place of an ASCII octet, and is ASCII. -/
theorem all_escapeOctet (hb : b < 0x80) : (escapeOctet b).all (· < 0x80) = true := by
  have hall : ∀ n < 0x80, (escapeOctet (UInt8.ofNat n)).all (· < 0x80) = true := by decide
  have hnumber := hall b.toNat (UInt8.lt_iff_toNat_lt.1 hb)
  rwa [UInt8.ofNat_toNat] at hnumber

/-- Octets of longer characters stand as they are. -/
theorem escapeOctet_of_le (hb : 0x80 ≤ b) : escapeOctet b = [b] := by
  fun_cases escapeOctet b with
  | case8 _ _ _ _ _ _ _ hlow =>
    have hless := UInt8.lt_of_le_of_lt hb hlow
    exact absurd hless (by decide)
  | case9 => rfl
  | _ =>
    subst_vars
    exact absurd hb (by decide)

theorem isWhole_escaped (h : IsWhole xs) : IsWhole (xs.flatMap escapeOctet) := by
  obtain ⟨cs, rfl⟩ := h
  induction cs with
  | nil => exact isWhole_nil
  | cons c cs ih =>
    rw [List.flatMap_cons, List.flatMap_append]
    refine IsWhole.append ?_ ih
    rcases utf8EncodeChar_cases c with ⟨b, hb, hc, -⟩ | hhigh
    · rw [hc, List.flatMap_singleton]
      exact isWhole_of_ascii (all_escapeOctet hb)
    · have hsame : (String.utf8EncodeChar c).flatMap escapeOctet = String.utf8EncodeChar c := by
        rw [List.flatMap_congr fun b hb => escapeOctet_of_le (hhigh b hb), List.flatMap_singleton']
      exact ⟨[c], by rw [hsame, List.flatMap_singleton]⟩

theorem isWhole_printString (s : String) : IsWhole (printString s) := by
  have hquote : IsWhole [0x22] := isWhole_of_ascii (by decide)
  exact hquote.append ((isWhole_escaped (isWhole_bytes s)).append hquote)

/-! ## Values -/

theorem all_decimal (n : Nat) : (Bytes.decimal n).all (· < 0x80) = true := by
  have hdigit : ∀ n < 10, [digit n].all (· < 0x80) = true := by decide
  fun_induction Bytes.decimal n with
  | case1 n hn => exact hdigit n hn
  | case2 n hn ih =>
    rw [List.all_append, ih]
    exact hdigit (n % 10) (Nat.mod_lt n (by decide))

theorem isWhole_cons (hb : b < 0x80) (h : IsWhole xs) : IsWhole (b :: xs) := by
  have hfirst : IsWhole [b] := isWhole_of_ascii (by simpa using hb)
  exact hfirst.append h

theorem isWhole_printItems {items : List Value} (h : ∀ v ∈ items, IsWhole (print v)) :
    IsWhole (printItems items) := by
  induction items with
  | nil => exact isWhole_of_ascii (by decide)
  | cons v rest ih =>
    obtain ⟨hv, hrest⟩ := List.forall_mem_cons.1 h
    exact isWhole_cons (by decide) (hv.append (ih hrest))

theorem isWhole_printEntries {entries : List (String × Value)}
    (h : ∀ entry ∈ entries, IsWhole (print entry.2)) : IsWhole (printEntries entries) := by
  induction entries with
  | nil => exact isWhole_of_ascii (by decide)
  | cons entry rest ih =>
    obtain ⟨hentry, hrest⟩ := List.forall_mem_cons.1 h
    exact isWhole_cons (by decide)
      ((isWhole_printString entry.1).append (isWhole_cons (by decide) (hentry.append (ih hrest))))

/-- **What is printed is text**: the octets of characters. -/
theorem isWhole_print {key : String → Prop} {depth : Nat} (hv : v.Plain key depth) :
    IsWhole (print v) := by
  induction hv with
  | null => exact isWhole_of_ascii (by decide)
  | bool c => cases c <;> exact isWhole_of_ascii (by decide)
  | natural n => exact isWhole_of_ascii (all_decimal n.toNat)
  | string s => exact isWhole_printString s
  | @array depth items _ ih =>
    match items with
    | [] => exact isWhole_of_ascii (by decide)
    | v :: rest =>
      obtain ⟨hv, hrest⟩ := List.forall_mem_cons.1 ih
      exact isWhole_cons (by decide) (hv.append (isWhole_printItems hrest))
  | @object depth entries _ _ ih =>
    match entries with
    | [] => exact isWhole_of_ascii (by decide)
    | entry :: rest =>
      obtain ⟨hentry, hrest⟩ := List.forall_mem_cons.1 ih
      exact isWhole_cons (by decide) ((isWhole_printString entry.1).append
        (isWhole_cons (by decide) (hentry.append (isWhole_printEntries hrest))))

/-- **A printed object is a text** that is not white at either end. -/
theorem exists_text_print {key : String → Prop} {depth : Nat} {entries : List (String × Value)}
    (h : (Value.object entries).Plain key depth) :
    ∃ s, ofBytes? (print (.object entries)) = some s ∧ trim s = s ∧
      bytes s = print (.object entries) := by
  obtain ⟨s, hs⟩ := (isWhole_print h).exists_bytes_eq
  obtain ⟨inner, hprint⟩ := print_object_eq entries
  refine ⟨s, by rw [← hs, ofBytes?_bytes], ?_, hs⟩
  exact trim_eq_self (hs.trans hprint) (by decide) (by decide)

end WarcStream.Json
