import WarcStream.Bytes
/-!
# Text as octets — UTF-8

`Text.bytes` and `Text.ofBytes?` are inverse: `ofBytes?_bytes` reads back what
was written, and `bytes_of_ofBytes?` says that nothing else is read as the same
text. `completeLength` counts the octets of the longest run of whole
characters at the front, which is what a reader of text in pieces may keep.
-/

namespace WarcStream.Text

/-- The UTF-8 octets of a text. -/
def bytes (s : String) : Bytes := s.toByteArray.data.toList

/-- The text whose UTF-8 octets these are, if they are any text's. -/
def ofBytes? (bs : Bytes) : Option String := String.fromUTF8? ⟨bs.toArray⟩

@[simp] theorem ofBytes?_bytes (s : String) : ofBytes? (bytes s) = some s :=
  dif_pos s.isValidUTF8

theorem bytes_of_ofBytes? {bs : Bytes} {s : String} (h : ofBytes? bs = some s) : bytes s = bs := by
  simp only [ofBytes?, String.fromUTF8?] at h
  split at h
  · simp only [Option.some.injEq] at h
    subst h
    rfl
  · simp at h

/-- A character's second and later octets. -/
def isContinuation (b : UInt8) : Bool := 0x80 ≤ b && b ≤ 0xbf

/-- The number of octets of the character at the front, if a whole and valid one is there.
Overlong forms, surrogates and values above the last code point are no characters. -/
def characterLength? : Bytes → Option Nat
  | [] => none
  | a :: rest =>
    if a < 0x80 then some 1
    else if 0xc2 ≤ a && a ≤ 0xdf then
      match rest with
      | b :: _ => if isContinuation b then some 2 else none
      | _ => none
    else if 0xe0 ≤ a && a ≤ 0xef then
      match rest with
      | b :: c :: _ =>
        if isContinuation b && isContinuation c && (a != 0xe0 || 0xa0 ≤ b) &&
            (a != 0xed || b ≤ 0x9f) then some 3 else none
      | _ => none
    else if 0xf0 ≤ a && a ≤ 0xf4 then
      match rest with
      | b :: c :: d :: _ =>
        if isContinuation b && isContinuation c && isContinuation d && (a != 0xf0 || 0x90 ≤ b) &&
            (a != 0xf4 || b ≤ 0x8f) then some 4 else none
      | _ => none
    else none

/-- The number of octets of the longest run of whole characters at the front. -/
def completeLength (bs : Bytes) : Nat := go bs 0 0
where
  /-- `due` octets of the character under way are still to come; `done` octets are settled. -/
  go : Bytes → (due : Nat) → (done : Nat) → Nat
    | [], _, done => done
    | _ :: rest, due + 1, done => go rest due done
    | b :: rest, 0, done =>
      match characterLength? (b :: rest) with
      | some n => go rest (n - 1) (done + n)
      | none => done

end WarcStream.Text
