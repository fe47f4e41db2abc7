import WarcStream.Json.Numeral
import WarcStream.Text.Utf8
/-!
# Reading JSON, octet by octet

The reader is a machine: `State.step` takes one octet, `State.run` a string of
octets, and `State.finish` says what the text means if it ends here. The state
holds the containers that are open, each with what has been read of it, so
reading a text in two parts is reading the whole (`run_append`). `parse` runs
the machine over a whole text and gives an error its position.
-/

namespace WarcStream.Json

/-- A container that is open around the value being read. -/
inductive Open where
  /-- A list with its items so far, newest first. -/
  | list (items : List Value)
  /-- An object with its entries so far and the key of the value being read. -/
  | object (entries : List (String × Value)) (key : String)
  deriving Repr

/-- What a string is read for. -/
inductive Role where
  /-- It is a value. -/
  | value
  /-- It is the next key of an object with these entries so far. -/
  | key (entries : List (String × Value))
  deriving Repr

/-- What is being read. `text` holds the octets of a string so far, newest first. -/
inductive Mode where
  /-- A value must start. -/
  | value
  /-- A list has just been opened. -/
  | listStart
  /-- An item must start behind a comma. -/
  | listNext
  /-- An item has ended. -/
  | afterItem (items : List Value)
  /-- An object has just been opened. -/
  | objectStart
  /-- A key must start behind a comma. -/
  | objectNext (entries : List (String × Value))
  /-- A key has ended. -/
  | afterKey (entries : List (String × Value)) (key : String)
  /-- The value of an entry has ended. -/
  | afterEntry (entries : List (String × Value))
  /-- The outermost value has ended. -/
  | afterAll (value : Value)
  /-- The rest of a word. -/
  | word (rest : Bytes) (value : Value)
  | number (n : Numeral)
  | string (role : Role) (text : Bytes)
  /-- Behind a backslash. -/
  | escape (role : Role) (text : Bytes)
  /-- Among the four digits of a code unit, newest first; `lead` is the leading surrogate the unit
  must complete. -/
  | unit (role : Role) (text : Bytes) (lead : Option Nat) (digits : Bytes)
  /-- Behind a leading surrogate; with `marked`, behind the backslash that follows it. -/
  | pair (role : Role) (text : Bytes) (lead : Nat) (marked : Bool)
  deriving Repr

/-- A state of the reader. -/
structure State where
  /-- The open containers, innermost first. -/
  stack : List Open
  mode : Mode
  deriving Repr

/-- What is wrong, and whether the octet at hand counts as read. -/
structure Failure where
  reason : Reason
  counted : Bool
  deriving DecidableEq, Repr

/-- A failure at the octet just taken. -/
def fail {α : Type} (reason : Reason) : Except Failure α := .error ⟨reason, true⟩

/-- The four characters that may stand between tokens. -/
def isSpace (b : UInt8) : Bool := b = 0x20 || b = 0x0a || b = 0x09 || b = 0x0d

/-- Containers may be nested this deep. -/
def maxDepth : Nat := 127

/-- A value has ended inside the open containers. -/
def settle (stack : List Open) (v : Value) : State :=
  match stack with
  | [] => ⟨[], .afterAll v⟩
  | .list items :: rest => ⟨rest, .afterItem (v :: items)⟩
  | .object entries key :: rest => ⟨rest, .afterEntry (insertEntry key v entries)⟩

/-- The first octet of a value. -/
def startValue (stack : List Open) (b : UInt8) : Except Failure State :=
  if b = 0x6e then .ok ⟨stack, .word [0x75, 0x6c, 0x6c] .null⟩
  else if b = 0x74 then .ok ⟨stack, .word [0x72, 0x75, 0x65] (.bool true)⟩
  else if b = 0x66 then .ok ⟨stack, .word [0x61, 0x6c, 0x73, 0x65] (.bool false)⟩
  else if b = 0x2d then .ok ⟨stack, .number .minus⟩
  else if Bytes.isDigit b then
    match Numeral.first false b with
    | .more n => .ok ⟨stack, .number n⟩
    -- a digit always starts a number
    | _ => fail .invalidNumber
  else if b = 0x22 then .ok ⟨stack, .string .value []⟩
  else if b = 0x5b then
    if stack.length < maxDepth then .ok ⟨stack, .listStart⟩ else fail .tooDeep
  else if b = 0x7b then
    if stack.length < maxDepth then .ok ⟨stack, .objectStart⟩ else fail .tooDeep
  else fail .expectedValue

/-- An octet between tokens, behind a finished value. -/
def between (stack : List Open) (b : UInt8) : Mode → Except Failure State
  | .afterItem items =>
    if isSpace b then .ok ⟨stack, .afterItem items⟩
    else if b = 0x2c then .ok ⟨.list items :: stack, .listNext⟩
    else if b = 0x5d then .ok (settle stack (.array items.reverse))
    else fail .expectedListCommaOrEnd
  | .afterEntry entries =>
    if isSpace b then .ok ⟨stack, .afterEntry entries⟩
    else if b = 0x2c then .ok ⟨stack, .objectNext entries⟩
    else if b = 0x7d then .ok (settle stack (.object entries))
    else fail .expectedObjectCommaOrEnd
  | mode =>
    if isSpace b then .ok ⟨stack, mode⟩ else fail .trailingCharacters

/-- The end of a string: a value, or the key of an entry. -/
def endString (stack : List Open) (role : Role) (text : Bytes) : Except Failure State :=
  match Text.ofBytes? text.reverse with
  | none => fail .invalidText
  | some s =>
    match role with
    | .value => .ok (settle stack (.string s))
    | .key entries => .ok ⟨stack, .afterKey entries s⟩

/-- The octet an escape of one letter stands for. -/
def escaped? (b : UInt8) : Option UInt8 :=
  if b = 0x22 || b = 0x5c || b = 0x2f then some b
  else if b = 0x62 then some 0x08
  else if b = 0x66 then some 0x0c
  else if b = 0x6e then some 0x0a
  else if b = 0x72 then some 0x0d
  else if b = 0x74 then some 0x09
  else none

/-- The number of four hexadecimal digits. -/
def unitValue? (digits : Bytes) : Option Nat :=
  digits.foldlM (fun n b => (Bytes.hexValue? b).map (n * 16 + ·)) 0

/-- A leading surrogate. -/
def isLead (n : Nat) : Bool := 0xd800 ≤ n && n ≤ 0xdbff

/-- A trailing surrogate. -/
def isTrail (n : Nat) : Bool := 0xdc00 ≤ n && n ≤ 0xdfff

/-- The octets of a code point. -/
def codePoint (n : Nat) : Bytes := Text.bytes (Char.ofNat n).toString

/-- A code unit given by its number. -/
def endUnit (stack : List Open) (role : Role) (text : Bytes) (lead : Option Nat) (n : Nat) :
    Except Failure State :=
  match lead with
  | none =>
    if isTrail n then fail .loneSurrogate
    else if isLead n then .ok ⟨stack, .pair role text n false⟩
    else .ok ⟨stack, .string role ((codePoint n).reverse ++ text)⟩
  | some high =>
    if isTrail n then
      let whole := (high - 0xd800) * 0x400 + (n - 0xdc00) + 0x10000
      .ok ⟨stack, .string role ((codePoint whole).reverse ++ text)⟩
    else fail .loneSurrogate

/-- One octet. -/
def State.step (s : State) (b : UInt8) : Except Failure State :=
  match s.mode with
  | .value => if isSpace b then .ok s else startValue s.stack b
  | .listStart =>
    if isSpace b then .ok s
    else if b = 0x5d then .ok (settle s.stack (.array []))
    else startValue (.list [] :: s.stack) b
  | .listNext =>
    if isSpace b then .ok s
    else if b = 0x5d then fail .trailingComma
    else startValue s.stack b
  | .objectStart =>
    if isSpace b then .ok s
    else if b = 0x7d then .ok (settle s.stack (.object []))
    else if b = 0x22 then .ok ⟨s.stack, .string (.key []) []⟩
    else fail .keyNotString
  | .objectNext entries =>
    if isSpace b then .ok s
    else if b = 0x7d then fail .trailingComma
    else if b = 0x22 then .ok ⟨s.stack, .string (.key entries) []⟩
    else fail .keyNotString
  | .afterKey entries key =>
    if isSpace b then .ok s
    else if b = 0x3a then .ok ⟨.object entries key :: s.stack, .value⟩
    else fail .expectedColon
  | .afterItem _ | .afterEntry _ | .afterAll _ => between s.stack b s.mode
  | .word [] v => .ok (settle s.stack v)
  | .word [last] v => if b = last then .ok (settle s.stack v) else fail .expectedWord
  | .word (next :: rest) v => if b = next then .ok ⟨s.stack, .word rest v⟩ else fail .expectedWord
  | .number n =>
    match n.step b with
    | .more n => .ok ⟨s.stack, .number n⟩
    | .failed reason => fail reason
    | .ended =>
      -- nothing but the octet behind a number ends it, so that octet is still to be placed
      match n.finish with
      | .ok v =>
        let next := settle s.stack (.number v)
        between next.stack b next.mode
      | .error reason => .error ⟨reason, false⟩
  | .string role text =>
    if b = 0x22 then endString s.stack role text
    else if b = 0x5c then .ok ⟨s.stack, .escape role text⟩
    else if b < 0x20 then fail .controlCharacter
    else .ok ⟨s.stack, .string role (b :: text)⟩
  | .escape role text =>
    if b = 0x75 then .ok ⟨s.stack, .unit role text none []⟩
    else
      match escaped? b with
      | some c => .ok ⟨s.stack, .string role (c :: text)⟩
      | none => fail .invalidEscape
  | .unit role text lead digits =>
    if digits.length < 3 then .ok ⟨s.stack, .unit role text lead (b :: digits)⟩
    else
      match unitValue? (digits.reverse ++ [b]) with
      | some n => endUnit s.stack role text lead n
      | none => fail .invalidEscape
  | .pair role text lead marked =>
    if marked then
      if b = 0x75 then .ok ⟨s.stack, .unit role text (some lead) []⟩
      else fail .unfinishedSurrogate
    else
      if b = 0x5c then .ok ⟨s.stack, .pair role text lead true⟩
      else fail .unfinishedSurrogate

/-- A string of octets, and a failure with the number of octets read. `consumed` octets have been
read before. -/
def State.run (s : State) : Bytes → (consumed : Nat) → Except (Reason × Nat) State
  | [], _ => .ok s
  | b :: rest, consumed =>
    match s.step b with
    | .ok next => next.run rest (consumed + 1)
    | .error f => .error (f.reason, if f.counted then consumed + 1 else consumed)

/-- Reading a text in two parts is reading the whole. -/
theorem State.run_append (s : State) (xs ys : Bytes) (consumed : Nat) :
    s.run (xs ++ ys) consumed =
      (s.run xs consumed).bind fun next => next.run ys (consumed + xs.length) := by
  induction xs generalizing s consumed with
  | nil => rfl
  | cons b rest ih =>
    simp only [List.cons_append, State.run, List.length_cons]
    cases s.step b with
    | ok next =>
      simp only [ih]
      congr 1
      funext next
      congr 1
      omega
    | error f => rfl

/-- What the text means if it ends here. -/
def State.finish (s : State) : Except Reason Value :=
  match s.mode with
  | .afterAll v => .ok v
  | .value | .listNext | .objectNext _ | .word _ _ => .error .endInValue
  | .listStart | .afterItem _ => .error .endInList
  | .objectStart | .afterKey _ _ | .afterEntry _ => .error .endInObject
  | .string _ _ | .escape _ _ | .unit _ _ _ _ | .pair _ _ _ _ => .error .endInString
  | .number n =>
    match n.finish with
    | .error reason => .error reason
    | .ok v =>
      match (settle s.stack (.number v)).mode with
      | .afterAll v => .ok v
      | .afterItem _ => .error .endInList
      | _ => .error .endInObject

/-- Nothing has been read. -/
def State.start : State := ⟨[], .value⟩

/-- The number of octets that an error counts as read. Octets that are no UTF-8 text are noticed at
the end of their string and are reported at the first of them. -/
def errorPosition (text : Bytes) (reason : Reason) (consumed : Nat) : Nat :=
  if reason = .invalidText then Text.completeLength text + 1 else consumed

/-- The value of a text. -/
def parse (text : Bytes) : Except Error Value :=
  match State.start.run text 0 with
  | .error (reason, consumed) =>
    .error (.after (text.take (errorPosition text reason consumed)) reason)
  | .ok s =>
    match s.finish with
    | .ok v => .ok v
    | .error reason => .error (.after text reason)

end WarcStream.Json
