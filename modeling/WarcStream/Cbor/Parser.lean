import WarcStream.Cbor.Error
import WarcStream.Text.Utf8
import WarcStream.Value
/-!
# Reading CBOR, request by request

The reader is a machine that asks for octets: `State.wanted` says how many,
`State.take` is given exactly that many and gives the next state, the value or
the error. A header is asked for as one octet and its argument, a string in
pieces. So the machine reads no octet past the item, and it reads the same
whether the octets come from memory or from a source; `run` is the first of
these. A text of many pieces may have a character cut by a piece's end, whose
octets are kept for the next piece.
-/

namespace WarcStream.Cbor

open Decimal

/-- Arrays and maps may be nested this deep. -/
def maxDepth : Nat := 256

/-- The largest piece of a string, and the longest first key of a map. -/
def pieceLimit : Nat := 4096

/-- The longest string of octets that stands for a large integer. -/
def bignumLimit : Nat := 16

/-- An array or a map that is open around what is being read. `left` counts what is still to come
behind it; none is an indefinite length. -/
inductive Open where
  /-- An array with its items so far, newest first. -/
  | array (items : List Value) (left : Option Nat)
  /-- A map with its entries so far and the key of the value being read. -/
  | map (entries : List (String × Value)) (key : String) (left : Option Nat)
  deriving Repr

/-- What a string is read for. -/
inductive Purpose where
  /-- A text that is a value. -/
  | text
  /-- A text that is the next key of a map with these entries so far. -/
  | key (entries : List (String × Value)) (left : Option Nat)
  /-- A string of octets, which is no value. -/
  | octets
  /-- The octets of a large integer. -/
  | bignum (negative : Bool)
  deriving Repr

/-- A string that is being read. -/
structure Running where
  purpose : Purpose
  /-- The whole characters, or the octets, read so far. -/
  text : Bytes := []
  /-- How many strings of indefinite length are open. -/
  nesting : Nat := 0
  deriving Repr

/-- What a header is read for. -/
inductive Slot where
  /-- A value. -/
  | value
  /-- The next item of an array of indefinite length, or its end. -/
  | item
  /-- The next key of a map with these entries so far; `plain` as long as no tag stands in front of
  it. -/
  | key (entries : List (String × Value)) (left : Option Nat) (plain : Bool)
  /-- What a tag stands in front of. -/
  | tagged (tag : Nat)
  /-- The next part of a string of indefinite length, or its end. -/
  | part (string : Running)
  deriving Repr

/-- What is asked for next. -/
inductive Mode where
  /-- The first octet of a header. -/
  | first (slot : Slot)
  /-- The argument of the header that starts with `first`, of one more than `more` octets. -/
  | argument (slot : Slot) (first : UInt8) (more : Nat)
  /-- A piece of a string of which one more than `more` octets are still to come. `kept` are the
  octets of an unfinished character, `origin` is where an error in the text is reported. -/
  | piece (string : Running) (more : Nat) (kept : Bytes) (origin : Nat)
  deriving Repr

/-- A state of the reader. -/
structure State where
  /-- The open arrays and maps, innermost first. -/
  stack : List Open
  mode : Mode
  /-- The number of octets taken. -/
  offset : Nat
  deriving Repr

/-- What the machine makes of the octets it asked for. -/
inductive Progress where
  | more (s : State)
  | done (v : Value)
  | failed (e : Error)
  deriving Repr

/-- One less than the number of octets asked for. -/
def State.wantedBefore (s : State) : Nat :=
  match s.mode with
  | .first _ => 0
  | .argument _ _ more => more
  | .piece _ more kept _ => min (pieceLimit - 1 - kept.length) more

/-- The number of octets asked for; never none. -/
def State.wanted (s : State) : Nat := s.wantedBefore + 1

/-! ## Values and what is around them -/

/-- A value has ended inside the open arrays and maps. -/
def settle (offset : Nat) : List Open → Value → Progress
  | [], v => .done v
  | .array items (some 0) :: rest, v => settle offset rest (.array (v :: items).reverse)
  | .array items (some (left + 1)) :: rest, v =>
    .more ⟨.array (v :: items) (some left) :: rest, .first .value, offset⟩
  | .array items none :: rest, v =>
    .more ⟨.array (v :: items) none :: rest, .first .item, offset⟩
  | .map entries key (some 0) :: rest, v =>
    settle offset rest (.object (insertEntry key v entries))
  | .map entries key (some (left + 1)) :: rest, v =>
    .more ⟨rest, .first (.key (insertEntry key v entries) (some left) true), offset⟩
  | .map entries key none :: rest, v =>
    .more ⟨rest, .first (.key (insertEntry key v entries) none true), offset⟩

/-- An array starts. -/
def startArray (offset : Nat) (stack : List Open) (count : Option Nat) : Progress :=
  if maxDepth ≤ stack.length then .failed .tooDeep
  else
    match count with
    | some 0 => settle offset stack (.array [])
    | some (left + 1) => .more ⟨.array [] (some left) :: stack, .first .value, offset⟩
    | none => .more ⟨.array [] none :: stack, .first .item, offset⟩

/-- A map starts. -/
def startMap (offset : Nat) (stack : List Open) (count : Option Nat) : Progress :=
  if maxDepth ≤ stack.length then .failed .tooDeep
  else
    match count with
    | some 0 => settle offset stack (.object [])
    | some (left + 1) => .more ⟨stack, .first (.key [] (some left) true), offset⟩
    | none => .more ⟨stack, .first (.key [] none true), offset⟩

/-! ## Strings -/

/-- The value of a large integer. -/
def bignum (negative : Bool) (octets : Bytes) : Except Error Number :=
  let n := Bytes.bigEndian octets
  if negative then
    if 2 ^ 127 ≤ n then .error .tooLarge
    else if h : n < 2 ^ 63 then .ok (.negative ⟨n, h⟩)
    else .error .outOfRange
  else if n < 2 ^ 64 then .ok (.natural (UInt64.ofNat n))
  else .error .outOfRange

/-- A string has ended. -/
def endString (offset origin : Nat) (stack : List Open) (string : Running) : Progress :=
  match string.purpose with
  | .octets => .failed .octetString
  | .bignum negative =>
    match bignum negative string.text with
    | .ok n => settle offset stack (.number n)
    | .error e => .failed e
  | .text =>
    match Text.ofBytes? string.text with
    | some s => settle offset stack (.string s)
    | none => .failed (.malformed origin)
  | .key entries left =>
    match Text.ofBytes? string.text with
    | some s => .more ⟨.map entries s left :: stack, .first .value, offset⟩
    | none => .failed (.malformed origin)

/-- A part of a string has ended: the string, or a part of one of indefinite length. -/
def endPart (offset origin : Nat) (stack : List Open) (string : Running) : Progress :=
  if string.nesting = 0 then endString offset origin stack string
  else .more ⟨stack, .first (.part string), offset⟩

/-- A part of a string starts, with its length. -/
def startPart (offset origin : Nat) (stack : List Open) (string : Running) : Nat → Progress
  | 0 => endPart offset origin stack string
  | more + 1 => .more ⟨stack, .piece string more [] origin, offset⟩

/-- A string starts. -/
def startString (offset origin : Nat) (stack : List Open) (purpose : Purpose) :
    Option Nat → Progress
  | some length => startPart offset origin stack { purpose } length
  | none => .more ⟨stack, .first (.part { purpose, nesting := 1 }), offset⟩

/-- The string is text and not octets. -/
def Purpose.isText : Purpose → Bool
  | .text | .key _ _ => true
  | .octets | .bignum _ => false

/-- A piece of a string, of which `left` octets are still to come behind it. -/
def takePiece (offset : Nat) (stack : List Open) (string : Running) (left : Nat)
    (kept octets : Bytes) (origin : Nat) : Progress :=
  let all := kept ++ octets
  let whole := if string.purpose.isText then Text.completeLength all else all.length
  let unfinished := all.drop whole
  let string := { string with text := string.text ++ all.take whole }
  -- a character has at most four octets, so four that make none never will
  if 3 < unfinished.length then .failed (.malformed origin)
  else
    match left with
    | more + 1 => .more ⟨stack, .piece string more unfinished origin, offset⟩
    | 0 =>
      if unfinished.isEmpty then endPart offset origin stack string
      else .failed (.malformed origin)

/-! ## Headers -/

/-- Where errors are reported in a string whose header, ending at `offset`, has been looked at
before it is read: the header then counts with its shortest length. -/
def peekedOrigin (offset : Nat) (length : Option Nat) : Nat := offset - shortestLength length

/-- A header where a value must stand. -/
def takeValue (offset : Nat) (stack : List Open) : Header → Progress
  | .positive n => settle offset stack (.natural (UInt64.ofNat n))
  | .negative n =>
    if h : n < 2 ^ 63 then settle offset stack (.number (.negative ⟨n, h⟩))
    else .failed .outOfRange
  | .octets length =>
    startString offset (peekedOrigin offset length) stack .octets length
  | .text length => startString offset (peekedOrigin offset length) stack .text length
  | .array count => startArray offset stack count
  | .map count => startMap offset stack count
  | .tag n => .more ⟨stack, .first (.tagged n), offset⟩
  | .simple n =>
    if n = falseValue then settle offset stack (.bool false)
    else if n = trueValue then settle offset stack (.bool true)
    else if n = nullValue ∨ n = undefinedValue then settle offset stack .null
    else .failed .unknownSimple
  | .real x =>
    settle offset stack (if x.isFinite then .number (.real x) else .null)
  | .stop => .failed .stop

/-- A header where a key must stand. The first key of a map must be short and of definite length;
only behind the first may a text have any form. -/
def takeKey (start offset : Nat) (stack : List Open) (entries : List (String × Value))
    (left : Option Nat) (plain : Bool) : Header → Progress
  | .tag _ => .more ⟨stack, .first (.key entries left false), offset⟩
  | .stop =>
    if plain && left.isNone then settle offset stack (.object entries)
    else .failed (.key .stop entries.isEmpty)
  | .text length =>
    if entries.isEmpty then
      match length with
      | some n =>
        if n ≤ pieceLimit then
          let origin := if plain && left.isNone then peekedOrigin offset length else start
          startString offset origin stack (.key entries left) length
        else .failed (.key (.text length) true)
      | none => .failed (.key (.text length) true)
    else
      startString offset (peekedOrigin offset length) stack (.key entries left) length
  | found => .failed (.key found entries.isEmpty)

/-- The tags of large integers. -/
def positiveBignum : Nat := 2
def negativeBignum : Nat := 3

/-- A header behind a tag. A short string of octets may be a large integer; nothing else that is
tagged is a value. -/
def takeTagged (start offset : Nat) (stack : List Open) (tag : Nat) (h : Header) : Progress :=
  -- a tag is a level of its own
  let other : Progress := if maxDepth ≤ stack.length then .failed .tooDeep else .failed .tagged
  match h with
  | .octets (some length) =>
    if (tag = positiveBignum ∨ tag = negativeBignum) ∧ length ≤ bignumLimit then
      startString offset start stack (.bignum (tag = negativeBignum)) (some length)
    else other
  | _ => other

/-- A header inside a string of indefinite length. -/
def takePart (start offset : Nat) (stack : List Open) (string : Running) : Header → Progress
  | .stop => endPart offset start stack { string with nesting := string.nesting - 1 }
  | .text length =>
    if string.purpose.isText then part length else .failed (.malformed start)
  | .octets length =>
    if string.purpose.isText then .failed (.malformed start) else part length
  | _ => .failed (.malformed start)
where
  /-- Another part, or a string of indefinite length inside the string. -/
  part : Option Nat → Progress
    | some length => startPart offset start stack string length
    | none => .more ⟨stack, .first (.part { string with nesting := string.nesting + 1 }), offset⟩

/-- A whole header, which started at `start`. -/
def takeHeader (start offset : Nat) (stack : List Open) (slot : Slot) (h : Header) : Progress :=
  match slot with
  | .value => takeValue offset stack h
  | .item =>
    match h, stack with
    | .stop, .array items _ :: rest => settle offset rest (.array items.reverse)
    | h, stack => takeValue offset stack h
  | .key entries left plain => takeKey start offset stack entries left plain h
  | .tagged tag => takeTagged start offset stack tag h
  | .part string => takePart start offset stack string h

/-- A header from its octets. -/
def takeArgument (offset : Nat) (stack : List Open) (slot : Slot) (first : UInt8)
    (argument : Bytes) : Progress :=
  let start := offset - argument.length - 1
  match Header.of? first argument with
  | some h => takeHeader start offset stack slot h
  | none => .failed (.malformed start)

/-- The octets that were asked for. -/
def State.take (s : State) (octets : Bytes) : Progress :=
  let offset := s.offset + octets.length
  match s.mode with
  | .first slot =>
    let first := octets.headD 0
    match argumentWidth? first with
    | none => .failed (.malformed s.offset)
    | some 0 => takeArgument offset s.stack slot first []
    | some (more + 1) => .more ⟨s.stack, .argument slot first more, offset⟩
  | .argument slot first _ => takeArgument offset s.stack slot first octets
  | .piece string more kept origin =>
    takePiece offset s.stack string (more + 1 - octets.length) kept octets origin

/-! ## Reading from memory -/

/-- Nothing has been taken. -/
def State.start : State := ⟨[], .first .value, 0⟩

/-- What comes of reading an item. -/
inductive Outcome where
  | done (v : Value)
  | failed (e : Error)
  /-- The octets end inside the item. -/
  | unfinished
  deriving Repr

/-- Reads an item from the front of `input`, and gives what is left of it. -/
def State.run (s : State) (input : Bytes) : Outcome × Bytes :=
  let octets := input.take s.wanted
  if _h : octets.length < s.wanted then (.unfinished, input)
  else
    match s.take octets with
    | .more next => next.run (input.drop s.wanted)
    | .done v => (.done v, input.drop s.wanted)
    | .failed e => (.failed e, input.drop s.wanted)
termination_by input.length
decreasing_by
  simp only [octets, List.length_take, State.wanted] at _h
  simp only [List.length_drop, State.wanted]
  omega

/-- Reads one item that must be all there is. -/
def parse (item : Bytes) : Except Error Value :=
  match State.start.run item with
  | (.unfinished, _) => .error .truncated
  | (.failed e, _) => .error e
  | (.done v, rest) => if rest.isEmpty then .ok v else .error (.trailing rest.length)

end WarcStream.Cbor
