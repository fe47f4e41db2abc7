import WarcStream.Bytes
/-!
# Base64 — octets as text

The standard alphabet with padding. Three octets become four symbols, and one
or two octets left over become two or three symbols and padding. Only the
canonical text is read: full padding, and no bits set in the last symbol that
belong to no octet.
-/

namespace WarcStream.Base64

/-- The symbol of a number below 64. -/
def symbol (n : Nat) : UInt8 :=
  if n < 26 then UInt8.ofNat (0x41 + n)
  else if n < 52 then UInt8.ofNat (0x61 + (n - 26))
  else if n < 62 then UInt8.ofNat (0x30 + (n - 52))
  else if n = 62 then 0x2b
  else 0x2f

/-- The number of a symbol. -/
def value? (b : UInt8) : Option Nat :=
  if 0x41 ≤ b && b ≤ 0x5a then some (b.toNat - 0x41)
  else if 0x61 ≤ b && b ≤ 0x7a then some (b.toNat - 0x61 + 26)
  else if 0x30 ≤ b && b ≤ 0x39 then some (b.toNat - 0x30 + 52)
  else if b = 0x2b then some 62
  else if b = 0x2f then some 63
  else none

/-- The padding symbol. -/
def pad : UInt8 := 0x3d

/-- The symbols of a string of octets. -/
def encode : Bytes → Bytes
  | [] => []
  | [a] =>
    [symbol (a.toNat / 4), symbol (a.toNat % 4 * 16), pad, pad]
  | [a, b] =>
    [symbol (a.toNat / 4), symbol (a.toNat % 4 * 16 + b.toNat / 16),
      symbol (b.toNat % 16 * 4), pad]
  | a :: b :: c :: rest =>
    symbol (a.toNat / 4) :: symbol (a.toNat % 4 * 16 + b.toNat / 16) ::
      symbol (b.toNat % 16 * 4 + c.toNat / 64) :: symbol (c.toNat % 64) :: encode rest

/-- Why a text is not the canonical text of any octets. -/
inductive Error where
  /-- An octet outside the alphabet, or padding out of place. -/
  | invalidSymbol (offset : Nat) (symbol : UInt8)
  /-- The last symbol has bits that belong to no octet. -/
  | invalidLastSymbol (offset : Nat) (symbol : UInt8)
  /-- A single symbol is left over. -/
  | invalidLength (length : Nat)
  /-- Padding is missing. -/
  | invalidPadding
  deriving DecidableEq, Repr

/-- The wording of an error. -/
def Error.message : Error → String
  | .invalidSymbol offset symbol =>
    "Invalid symbol " ++ toString symbol.toNat ++ ", offset " ++ toString offset ++ "."
  | .invalidLastSymbol offset symbol =>
    "Invalid last symbol " ++ toString symbol.toNat ++ ", offset " ++ toString offset ++ "."
  | .invalidLength length => "Invalid input length: " ++ toString length
  | .invalidPadding => "Invalid padding"

/-- The number of the symbol at an offset. -/
def valueAt (offset : Nat) (b : UInt8) : Except Error Nat :=
  match value? b with
  | some n => .ok n
  | none => .error (.invalidSymbol offset b)

/-- The octets of four symbols without padding. -/
def decodeGroup (offset : Nat) (a b c d : UInt8) : Except Error Bytes := do
  let w ← valueAt offset a
  let x ← valueAt (offset + 1) b
  let y ← valueAt (offset + 2) c
  let z ← valueAt (offset + 3) d
  return [UInt8.ofNat (w * 4 + x / 16), UInt8.ofNat (x % 16 * 16 + y / 4),
    UInt8.ofNat (y % 4 * 64 + z)]

/-- The symbols of a last group and the number of padding symbols after them. Padding may stand
only behind two or three symbols, and no symbol behind padding. -/
def lastSymbols (offset : Nat) :
    Bytes → (index : Nat) → (padding : Nat) → Except Error (List (Nat × UInt8) × Nat)
  | [], _, padding => .ok ([], padding)
  | b :: rest, index, padding =>
    if b = pad then
      if index < 2 then .error (.invalidSymbol (offset + index) b)
      else lastSymbols offset rest (index + 1) (padding + 1)
    else if 0 < padding then .error (.invalidSymbol (offset + index - padding) pad)
    else do
      let n ← valueAt (offset + index) b
      let (symbols, padding) ← lastSymbols offset rest (index + 1) padding
      return ((n, b) :: symbols, padding)

/-- The octets of the last group, of at most four symbols. -/
def decodeLast (offset : Nat) (group : Bytes) : Except Error Bytes := do
  let (symbols, padding) ← lastSymbols offset group 0 0
  if symbols.length < 2 then
    throw (.invalidLength (offset + symbols.length))
  if (symbols.length + padding) % 4 ≠ 0 then
    throw .invalidPadding
  match symbols with
  | [(w, _), (x, last)] =>
    if x % 16 = 0 then return [UInt8.ofNat (w * 4 + x / 16)]
    else throw (.invalidLastSymbol (offset + 1) last)
  | [(w, _), (x, _), (y, last)] =>
    if y % 4 = 0 then return [UInt8.ofNat (w * 4 + x / 16), UInt8.ofNat (x % 16 * 16 + y / 4)]
    else throw (.invalidLastSymbol (offset + 2) last)
  | [(w, _), (x, _), (y, _), (z, _)] =>
    return [UInt8.ofNat (w * 4 + x / 16), UInt8.ofNat (x % 16 * 16 + y / 4),
      UInt8.ofNat (y % 4 * 64 + z)]
  -- a group has at most four symbols, and fewer than two were refused above
  | _ => throw (.invalidLength (offset + symbols.length))

/-- The octets of all groups; the last one may be padded or incomplete. -/
def decodeGroups (offset : Nat) : Bytes → Except Error Bytes
  | a :: b :: c :: d :: e :: rest => do
    let front ← decodeGroup offset a b c d
    let back ← decodeGroups (offset + 4) (e :: rest)
    return front ++ back
  | group => decodeLast offset group

/-- The octets of a text. A stray octet at the very end is named before anything else is looked
at, as a convenience to those who paste a line with its line feed. -/
def decode (text : Bytes) : Except Error Bytes :=
  match text with
  | [] => .ok []
  | _ =>
    match text.getLast? with
    | some last =>
      if text.length % 4 = 1 ∧ last ≠ pad ∧ value? last = none then
        .error (.invalidSymbol (text.length - 1) last)
      else decodeGroups 0 text
    | none => .ok []

end WarcStream.Base64
