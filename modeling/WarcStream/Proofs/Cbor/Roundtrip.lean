import WarcStream.Cbor.Encoder
import WarcStream.Proofs.Cbor.Requests
import WarcStream.Proofs.Text.Characters
import WarcStream.Proofs.Value
/-!
# CBOR items read back

What is encoded of a value, the machine reads as that value with its entries
in the order of their keys (`reads_encode`), request by request. The argument
of a header has at most sixty-four bits, so the item must be shorter than
that. A long text comes in pieces, and a piece may end inside a character.
-/

namespace WarcStream.Cbor

open Text

variable {stack : List Open} {offset origin major n j : Nat} {argument xs : Bytes} {slot : Slot}

/-! ## Headers -/

/-- The header of a major type with an argument. -/
def headerOf : (major : Nat) → (n : Nat) → Header
  | 0, n => .positive n
  | 1, n => .negative n
  | 2, n => .octets (some n)
  | 3, n => .text (some n)
  | 4, n => .array (some n)
  | 5, n => .map (some n)
  | 6, n => .tag n
  | _, n => .simple n

theorem toNat_first (hmajor : major < 8) (hlow : j < 32) :
    (UInt8.ofNat (major * 32 + j)).toNat / 32 = major ∧
      (UInt8.ofNat (major * 32 + j)).toNat % 32 = j := by
  rw [UInt8.toNat_ofNat']
  omega

/-- A header is understood. A simple value has no argument of its own here. -/
theorem of?_first (argument : Bytes) (hmajor : major < 8) (hlow : j < 28)
    (hsimple : major = 7 → argument = []) :
    Header.of? (UInt8.ofNat (major * 32 + j)) argument =
      some (headerOf major (if j < 24 then j else Bytes.bigEndian argument)) := by
  obtain ⟨hdiv, hmod⟩ := toNat_first (j := j) hmajor (by omega)
  rw [Header.of?]
  simp only [hdiv, hmod, if_neg (show j ≠ 31 by omega)]
  match major, hmajor with
  | 0, _ | 1, _ | 2, _ | 3, _ | 4, _ | 5, _ | 6, _ => rfl
  | 7, _ =>
    rw [hsimple rfl]
    rfl

/-- An argument below 24 stands in the first octet. -/
theorem reads_short (stack : List Open) (slot : Slot) (offset : Nat) (hmajor : major < 8)
    (hn : n < 24) :
    Reads (.more ⟨stack, .first slot, offset⟩) [UInt8.ofNat (major * 32 + n)]
      (takeHeader offset (offset + 1) stack slot (headerOf major n)) := by
  have hwidth : argumentWidth? (UInt8.ofNat (major * 32 + n)) = some 0 := by
    rw [argumentWidth?, (toNat_first hmajor (by omega)).2]
    simp only [if_pos hn]
  have htake : State.take ⟨stack, .first slot, offset⟩ [UInt8.ofNat (major * 32 + n)] =
      takeHeader offset (offset + 1) stack slot (headerOf major n) := by
    simp only [State.take, List.headD_cons, hwidth, takeArgument,
      of?_first [] hmajor (show n < 28 by omega) fun _ => rfl, if_pos hn]
    rfl
  rw [← htake]
  exact .single rfl

/-- A larger argument stands behind it. -/
theorem reads_long (stack : List Open) (slot : Slot) (offset : Nat) (hmajor : major < 7)
    (hj : j < 4) (hn : n < 256 ^ 2 ^ j) :
    Reads (.more ⟨stack, .first slot, offset⟩)
      (UInt8.ofNat (major * 32 + (24 + j)) :: Bytes.ofNat (2 ^ j) n)
      (takeHeader offset (offset + (1 + 2 ^ j)) stack slot (headerOf major n)) := by
  obtain ⟨more, hmore⟩ := Nat.exists_eq_succ_of_ne_zero (show 2 ^ j ≠ 0 by simp)
  let first := UInt8.ofNat (major * 32 + (24 + j))
  have hwidth : argumentWidth? first = some (more + 1) := by
    rw [argumentWidth?, (toNat_first (by omega) (by omega)).2]
    simp only [if_neg (show ¬ 24 + j < 24 by omega), if_pos (show 24 + j < 28 by omega),
      Nat.add_sub_cancel_left, hmore]
  have hfirst : State.take ⟨stack, .first slot, offset⟩ [first] =
      .more ⟨stack, .argument slot first more, offset + 1⟩ := by
    simp only [State.take, List.headD_cons, hwidth]
    rfl
  have hrest : State.take ⟨stack, .argument slot first more, offset + 1⟩ (Bytes.ofNat (2 ^ j) n) =
      takeHeader offset (offset + (1 + 2 ^ j)) stack slot (headerOf major n) := by
    have hheader := of?_first (Bytes.ofNat (2 ^ j) n) (show major < 8 by omega)
      (show 24 + j < 28 by omega) (by omega)
    rw [if_neg (by omega), Bytes.bigEndian_ofNat, Nat.mod_eq_of_lt hn] at hheader
    simp only [State.take, takeArgument, first, hheader, Bytes.length_ofNat]
    rw [show offset + 1 + 2 ^ j - 2 ^ j - 1 = offset by omega, Nat.add_assoc]
  show Reads _ ([first] ++ Bytes.ofNat (2 ^ j) n) _
  refine .step rfl ?_
  rw [hfirst, ← hrest]
  refine .single ?_
  rw [Bytes.length_ofNat, hmore]
  rfl

/-- **A header is read** as the one it was written for. -/
theorem reads_head (stack : List Open) (slot : Slot) (offset : Nat) (hmajor : major < 7)
    (hn : n < 2 ^ 64) :
    Reads (.more ⟨stack, .first slot, offset⟩) (head major n)
      (takeHeader offset (offset + (head major n).length) stack slot (headerOf major n)) := by
  rw [head]
  split
  · exact reads_short stack slot offset (by omega) ‹_›
  split
  · exact reads_long (j := 0) stack slot offset hmajor (by decide) ‹_›
  split
  · exact reads_long (j := 1) stack slot offset hmajor (by decide) ‹_›
  split
  · exact reads_long (j := 2) stack slot offset hmajor (by decide) ‹_›
  · exact reads_long (j := 3) stack slot offset hmajor (by decide) hn

/-! ## Texts -/

section Texts

variable {string : Running} {kept rest : Bytes} {more : Nat} {purpose : Purpose}

/-- A piece is as long as what is left of the text, or as what may be asked for. -/
theorem wanted_piece (stack : List Open) (string : Running) (more offset origin : Nat)
    (hkept : kept.length ≤ 3) :
    State.wanted ⟨stack, .piece string more kept origin, offset⟩ =
      min (pieceLimit - kept.length) (more + 1) := by
  simp only [State.wanted, State.wantedBefore, pieceLimit]
  omega

/-- What is made of a piece: its whole characters are added to the text, and what is behind them
is kept. -/
theorem take_piece (stack : List Open) (more offset origin : Nat) {octets whole part : Bytes}
    (hpurpose : string.purpose.isText = true)
    (hall : kept ++ octets = whole ++ part)
    (hcomplete : completeLength (kept ++ octets) = whole.length) (hpart : part.length ≤ 3) :
    State.take ⟨stack, .piece string more kept origin, offset⟩ octets =
      match more + 1 - octets.length with
      | left + 1 => .more ⟨stack, .piece { string with text := string.text ++ whole } left part
          origin, offset + octets.length⟩
      | 0 =>
        if part.isEmpty then
          endPart (offset + octets.length) origin stack
            { string with text := string.text ++ whole }
        else .failed (.malformed origin) := by
  rw [hall] at hcomplete
  have hshort : ¬ 3 < part.length := by omega
  cases hleft : more + 1 - octets.length with
  | zero =>
    simp only [State.take, takePiece, hpurpose, if_true, hall, hcomplete, List.take_left,
      List.drop_left, if_neg hshort, hleft]
  | succ left =>
    simp only [State.take, takePiece, hpurpose, if_true, hall, hcomplete, List.take_left,
      List.drop_left, if_neg hshort, hleft]

/-- **A text in pieces.** The octets kept behind the whole characters of a piece open the next
one, so that every text comes whole, wherever its pieces end. -/
theorem reads_piece (stack : List Open) (string : Running) (kept rest : Bytes)
    (offset origin : Nat) (hpurpose : string.purpose.isText = true)
    (hnesting : string.nesting = 0) (hwhole : IsWhole (kept ++ rest)) (hkept : kept.length ≤ 3)
    (hrest : rest.length = more + 1) :
    Reads (.more ⟨stack, .piece string more kept origin, offset⟩) rest
      (endString (offset + rest.length) origin stack
        { string with text := string.text ++ (kept ++ rest) }) := by
  -- along the pieces, each of which leaves less of the text
  induction hn : rest.length using Nat.strongRecOn generalizing string kept rest more offset with
  | _ n ih =>
    let s : State := ⟨stack, .piece string more kept origin, offset⟩
    have hwanted : s.wanted = min (pieceLimit - kept.length) (more + 1) :=
      wanted_piece stack string more offset origin hkept
    have hsome : 0 < s.wanted := Nat.succ_pos _
    have hle : s.wanted ≤ rest.length := by omega
    obtain ⟨octets, later, rfl, hlen⟩ : ∃ octets later, rest = octets ++ later ∧
        octets.length = s.wanted :=
      ⟨rest.take s.wanted, rest.drop s.wanted, (List.take_append_drop _ _).symm,
        List.length_take_of_le hle⟩
    rw [List.length_append] at hrest hn
    rw [← List.append_assoc] at hwhole
    obtain ⟨whole, part, hall, hcomplete, hpart, hopen, hlast⟩ := completeLength_append hwhole
    have hleft : more + 1 - octets.length = later.length := by omega
    have htake := take_piece stack more offset origin hpurpose hall hcomplete hpart
    refine .step hlen ?_
    match hlater : later.length with
    | 0 =>
      obtain rfl := List.length_eq_zero_iff.1 hlater
      obtain rfl := hlast rfl
      rw [htake, hleft, hlater]
      simp only [List.isEmpty_nil, if_true, List.append_nil] at hall ⊢
      rw [endPart, if_pos hnesting, hall, ← hn, hlater]
      exact .refl _
    | left + 1 =>
      have hshort : later.length < n := by omega
      have hmore := ih later.length hshort { string with text := string.text ++ whole } part later
        (offset + octets.length) hpurpose hnesting hopen hpart hlater rfl
      rw [htake, hleft, hlater]
      have htext : string.text ++ (kept ++ (octets ++ later)) =
          string.text ++ whole ++ (part ++ later) := by
        rw [← List.append_assoc kept, hall]
        simp only [List.append_assoc]
      rw [htext, ← hn, ← Nat.add_assoc]
      exact hmore

/-- A text of definite length. -/
theorem reads_startString (stack : List Open) (offset origin : Nat) (string : String)
    (hpurpose : purpose.isText = true) :
    Reads (startString offset origin stack purpose (some (Text.bytes string).length))
      (Text.bytes string)
      (endString (offset + (Text.bytes string).length) origin stack
        { purpose, text := Text.bytes string }) := by
  match hlength : (Text.bytes string).length with
  | 0 =>
    rw [List.length_eq_zero_iff] at hlength
    rw [hlength]
    exact .refl _
  | more + 1 =>
    have hpiece := reads_piece stack { purpose } [] (Text.bytes string) offset origin hpurpose rfl
      (isWhole_bytes string) (by simp) hlength
    rw [hlength] at hpiece
    exact hpiece

/-- **A text is read back**, as a value -/
theorem reads_text (stack : List Open) (offset : Nat) (string : String)
    (hlen : (Text.bytes string).length < 2 ^ 64) :
    Reads (.more ⟨stack, .first .value, offset⟩) (encodeText string)
      (settle (offset + (encodeText string).length) stack (.string string)) := by
  have hhead := reads_head stack .value offset (show 3 < 7 by decide) hlen
  rw [encodeText, List.length_append, ← Nat.add_assoc]
  refine hhead.trans ?_
  have hstring := reads_startString stack (offset + (head 3 (Text.bytes string).length).length)
    (peekedOrigin (offset + (head 3 (Text.bytes string).length).length)
      (some (Text.bytes string).length)) string (show Purpose.text.isText = true by rfl)
  simp only [endString, ofBytes?_bytes] at hstring
  exact hstring

/-- and as a key, if it is short. -/
theorem reads_key (stack : List Open) (offset : Nat) (entries : List (String × Value)) (left : Nat)
    {key : String} (hkey : (Text.bytes key).length ≤ pieceLimit) :
    Reads (.more ⟨stack, .first (.key entries (some left) true), offset⟩) (encodeText key)
      (.more ⟨.map entries key (some left) :: stack, .first .value,
        offset + (encodeText key).length⟩) := by
  have hsmall : (Text.bytes key).length < 2 ^ 64 := Nat.lt_of_le_of_lt hkey (by decide)
  have hhead := reads_head stack (.key entries (some left) true) offset (show 3 < 7 by decide)
    hsmall
  rw [encodeText, List.length_append, ← Nat.add_assoc]
  refine hhead.trans ?_
  have hstring (origin : Nat) :=
    reads_startString stack (offset + (head 3 (Text.bytes key).length).length) origin key
      (show (Purpose.key entries (some left)).isText = true by rfl)
  simp only [endString, ofBytes?_bytes] at hstring
  simp only [takeHeader, headerOf, takeKey, if_pos hkey]
  split
  · exact hstring _
  · exact hstring _

end Texts

/-! ## Values -/

section Values

variable {v w : Value} {items done : List Value} {entries found : List (String × Value)}
variable {text : Bytes}

/-- Where a value must stand, the machine reads one, whose item this is. -/
def ReadsValue (stack : List Open) (v : Value) (text : Bytes) : Prop :=
  ∀ offset, Reads (.more ⟨stack, .first .value, offset⟩) text
    (settle (offset + text.length) stack v)

theorem head_ne_nil (major n : Nat) : head major n ≠ [] := by
  rw [head]
  split_ifs <;> simp

/-- An item has at least one octet. -/
theorem length_encode_pos (v : Value) : 0 < (encode v).length := by
  have hpos (major n : Nat) : 0 < (head major n).length :=
    List.length_pos_iff.2 (head_ne_nil major n)
  match v with
  | .null | .bool _ | .number (.natural _) | .number (.negative _) => exact hpos _ _
  | .number (.real _) => simp [encode, encodeNumber]
  | .string _ =>
    rw [encode, encodeText, List.length_append]
    exact Nat.add_pos_left (hpos _ _) _
  | .array _ | .object _ =>
    rw [encode, List.length_append]
    exact Nat.add_pos_left (hpos _ _) _

theorem length_le_encodeItems (items : List Value) :
    items.length ≤ (encodeItems items).length := by
  induction items with
  | nil => exact Nat.zero_le _
  | cons v rest ih =>
    have := length_encode_pos v
    rw [encodeItems, List.length_append, List.length_cons]
    omega

theorem length_le_encodeEntries (entries : List (String × Value)) :
    entries.length ≤ (encodeEntries entries).length := by
  induction entries with
  | nil => exact Nat.zero_le _
  | cons entry rest ih =>
    have := length_encode_pos entry.2
    rw [encodeEntries, List.length_append, List.length_append, List.length_cons]
    omega

theorem length_encode_le_of_mem_items (h : v ∈ items) :
    (encode v).length ≤ (encodeItems items).length := by
  induction items with
  | nil => simp at h
  | cons w rest ih =>
    rw [encodeItems, List.length_append]
    rcases List.mem_cons.1 h with rfl | h
    · omega
    · have := ih h
      omega

theorem length_encode_le_of_mem_entries {entry : String × Value} (h : entry ∈ entries) :
    (encode entry.2).length ≤ (encodeEntries entries).length := by
  induction entries with
  | nil => simp at h
  | cons other rest ih =>
    rw [encodeEntries, List.length_append, List.length_append]
    rcases List.mem_cons.1 h with rfl | h
    · omega
    · have := ih h
      omega

/-- The items of an array, of which one less than their number are left behind the first. -/
theorem reads_encodeItems (done : List Value) (offset : Nat)
    (hitems : ∀ w ∈ v :: items, ∀ done left,
      ReadsValue (.array done (some left) :: stack) w.sorted (encode w)) :
    Reads (.more ⟨.array done (some items.length) :: stack, .first .value, offset⟩)
      (encodeItems (v :: items))
      (settle (offset + (encodeItems (v :: items)).length) stack
        (.array (done.reverse ++ Value.sortedItems (v :: items)))) := by
  induction items generalizing v done offset with
  | nil =>
    have hone := hitems v List.mem_cons_self done 0 offset
    rw [settle, List.reverse_cons] at hone
    rw [encodeItems, encodeItems, List.append_nil]
    exact hone
  | cons w rest ih =>
    have hone := hitems v List.mem_cons_self done rest.length.succ offset
    have hmore := ih (v.sorted :: done) (offset + (encode v).length)
      fun x hx => hitems x (List.mem_cons_of_mem v hx)
    rw [settle] at hone
    rw [List.reverse_cons, List.append_assoc] at hmore
    rw [encodeItems, List.length_append, ← Nat.add_assoc]
    exact hone.trans hmore

/-- The entries of a map likewise. -/
theorem reads_encodeEntries (key : String) (v : Value) (found : List (String × Value))
    (offset : Nat)
    (hkeys : ∀ entry ∈ (key, v) :: entries, (Text.bytes entry.1).length ≤ pieceLimit)
    (hentries : ∀ entry ∈ (key, v) :: entries, ∀ found left,
      ReadsValue (.map found entry.1 (some left) :: stack) entry.2.sorted (encode entry.2)) :
    Reads (.more ⟨stack, .first (.key found (some entries.length) true), offset⟩)
      (encodeEntries ((key, v) :: entries))
      (settle (offset + (encodeEntries ((key, v) :: entries)).length) stack
        (.object (Value.sortedEntries ((key, v) :: entries) found))) := by
  induction entries generalizing key v found offset with
  | nil =>
    have hkey := reads_key stack offset found 0 (hkeys (key, v) List.mem_cons_self)
    have hvalue := hentries (key, v) List.mem_cons_self found 0 (offset + (encodeText key).length)
    rw [settle] at hvalue
    rw [encodeEntries, encodeEntries, List.append_nil, List.length_append, ← Nat.add_assoc]
    exact hkey.trans hvalue
  | cons entry rest ih =>
    have hkey := reads_key stack offset found rest.length.succ (hkeys (key, v) List.mem_cons_self)
    have hvalue := hentries (key, v) List.mem_cons_self found rest.length.succ
      (offset + (encodeText key).length)
    have hmore := ih entry.1 entry.2 (insertEntry key v.sorted found)
      (offset + (encodeText key).length + (encode v).length)
      (fun e he => hkeys e (List.mem_cons_of_mem _ he))
      fun e he => hentries e (List.mem_cons_of_mem _ he)
    rw [settle] at hvalue
    rw [encodeEntries, List.length_append, List.length_append, ← Nat.add_assoc, ← Nat.add_assoc]
    exact (hkey.trans hvalue).trans hmore

theorem reads_array (hdepth : stack.length < maxDepth)
    (hlen : (encode (.array items)).length < 2 ^ 64)
    (hitems : ∀ w ∈ items, ∀ done left,
      ReadsValue (.array done (some left) :: stack) w.sorted (encode w)) :
    ReadsValue stack (Value.array items).sorted (encode (.array items)) := by
  intro offset
  rw [encode, List.length_append] at hlen
  have hcount := length_le_encodeItems items
  have hhead := reads_head stack .value offset (show 4 < 7 by decide)
    (show items.length < 2 ^ 64 by omega)
  simp only [takeHeader, headerOf, takeValue, startArray, if_neg (Nat.not_le.2 hdepth)] at hhead
  rw [encode, List.length_append, ← Nat.add_assoc]
  cases items with
  | nil => exact hhead.trans (.refl _)
  | cons v rest => exact hhead.trans (reads_encodeItems [] _ hitems)

theorem reads_object (hdepth : stack.length < maxDepth)
    (hlen : (encode (.object entries)).length < 2 ^ 64)
    (hkeys : ∀ entry ∈ entries, (Text.bytes entry.1).length ≤ pieceLimit)
    (hentries : ∀ entry ∈ entries, ∀ found left,
      ReadsValue (.map found entry.1 (some left) :: stack) entry.2.sorted (encode entry.2)) :
    ReadsValue stack (Value.object entries).sorted (encode (.object entries)) := by
  intro offset
  rw [encode, List.length_append] at hlen
  have hcount := length_le_encodeEntries entries
  have hhead := reads_head stack .value offset (show 5 < 7 by decide)
    (show entries.length < 2 ^ 64 by omega)
  simp only [takeHeader, headerOf, takeValue, startMap, if_neg (Nat.not_le.2 hdepth)] at hhead
  rw [encode, List.length_append, ← Nat.add_assoc]
  cases entries with
  | nil => exact hhead.trans (.refl _)
  | cons entry rest =>
    exact hhead.trans (reads_encodeEntries entry.1 entry.2 [] _ hkeys hentries)

end Values

/-- **Every plain value is read back** wherever a value may stand, as deep as it fits. -/
theorem reads_encode (stack : List Open) {v : Value} {depth : Nat}
    (h : v.Plain (fun key => (Text.bytes key).length ≤ pieceLimit) depth)
    (hdepth : stack.length + depth ≤ maxDepth) (hlen : (encode v).length < 2 ^ 64) :
    ReadsValue stack v.sorted (encode v) := by
  induction h generalizing stack with
  | null =>
    intro offset
    exact reads_short stack .value offset (show 7 < 8 by decide) (by decide : nullValue < 24)
  | bool b =>
    intro offset
    cases b with
    | true =>
      exact reads_short stack .value offset (show 7 < 8 by decide) (by decide : trueValue < 24)
    | false =>
      exact reads_short stack .value offset (show 7 < 8 by decide) (by decide : falseValue < 24)
  | natural n =>
    intro offset
    have hhead := reads_head stack .value offset (show 0 < 7 by decide) n.toNat_lt
    simp only [takeHeader, headerOf, takeValue, UInt64.ofNat_toNat] at hhead
    exact hhead
  | string s =>
    intro offset
    rw [encode, encodeText, List.length_append] at hlen
    exact reads_text stack offset s (by omega)
  | @array depth items _ ih =>
    refine reads_array (by omega) hlen fun w hw done left => ih w hw _ ?_ ?_
    · rw [List.length_cons]
      omega
    · have hle := length_encode_le_of_mem_items hw
      rw [encode, List.length_append] at hlen
      omega
  | @object depth entries hkeys _ ih =>
    refine reads_object (by omega) hlen hkeys fun entry hentry found left => ih entry hentry _ ?_ ?_
    · rw [List.length_cons]
      omega
    · have hle := length_encode_le_of_mem_entries hentry
      rw [encode, List.length_append] at hlen
      omega

end WarcStream.Cbor
