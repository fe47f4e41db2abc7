import WarcStream.Decimal.Binary64
/-!
# Values — the data both encodings carry

A value is what a JSON text or a CBOR item says once the encoding is taken
away. An object keeps its entries in a list: in the order they are to be
written, or, for a value that was read, in the order of their keys with one
entry a key (`insertEntry` keeps that order, and a key given twice keeps its
last value). `sorted` brings a value of the first kind to the second.
-/

namespace WarcStream

open Decimal

/-- A number as it is written: a natural number of 64 bits, a negative integer, or a binary
floating-point number. -/
inductive Number where
  /-- An integer that is not negative. -/
  | natural (n : UInt64)
  /-- The integer `-1 - below`. -/
  | negative (below : Fin (2 ^ 63))
  /-- A number with a fraction or an exponent, or beyond the integers above. -/
  | real (x : Binary64)
  deriving DecidableEq, Repr

/-- A value of the structured data model. -/
inductive Value where
  | null
  | bool (b : Bool)
  | number (n : Number)
  | string (s : String)
  | array (items : List Value)
  | object (entries : List (String × Value))
  deriving Repr

namespace Value

instance : Inhabited Value := ⟨.null⟩

/-- The natural number `n`. -/
def natural (n : UInt64) : Value := .number (.natural n)

mutual

/-- Equality of values is decided part by part. -/
def decEq : (v w : Value) → Decidable (v = w)
  | .null, w => by
    cases w
    case null => exact isTrue rfl
    all_goals exact isFalse (by simp)
  | .bool b, w => by
    cases w
    case bool c => exact decidable_of_iff (b = c) (by simp)
    all_goals exact isFalse (by simp)
  | .number b, w => by
    cases w
    case number c => exact decidable_of_iff (b = c) (by simp)
    all_goals exact isFalse (by simp)
  | .string b, w => by
    cases w
    case string c => exact decidable_of_iff (b = c) (by simp)
    all_goals exact isFalse (by simp)
  | .array xs, w => by
    cases w
    case array ys =>
      have := decEqItems xs ys
      exact decidable_of_iff (xs = ys) (by simp)
    all_goals exact isFalse (by simp)
  | .object xs, w => by
    cases w
    case object ys =>
      have := decEqEntries xs ys
      exact decidable_of_iff (xs = ys) (by simp)
    all_goals exact isFalse (by simp)

/-- Equality of the items of two arrays. -/
def decEqItems : (xs ys : List Value) → Decidable (xs = ys)
  | [], [] => isTrue rfl
  | [], _ :: _ => isFalse (by simp)
  | _ :: _, [] => isFalse (by simp)
  | x :: xs, y :: ys =>
    have := decEq x y
    have := decEqItems xs ys
    decidable_of_iff (x = y ∧ xs = ys) (by simp)

/-- Equality of the entries of two objects. -/
def decEqEntries : (xs ys : List (String × Value)) → Decidable (xs = ys)
  | [], [] => isTrue rfl
  | [], _ :: _ => isFalse (by simp)
  | _ :: _, [] => isFalse (by simp)
  | (j, x) :: xs, (k, y) :: ys =>
    have := decEq x y
    have := decEqEntries xs ys
    decidable_of_iff (j = k ∧ x = y ∧ xs = ys) (by simp [and_assoc])

end

instance : DecidableEq Value := decEq

end Value

/-- The entries with `key` set to `value`, in the order of their keys. -/
def insertEntry (key : String) (value : Value) :
    List (String × Value) → List (String × Value)
  | [] => [(key, value)]
  | (k, v) :: rest =>
    if key = k then (key, value) :: rest
    else if key < k then (key, value) :: (k, v) :: rest
    else (k, v) :: insertEntry key value rest

namespace Value

mutual

/-- The same data with the entries of every object in the order of their keys. -/
def sorted : Value → Value
  | .array items => .array (sortedItems items)
  | .object entries => .object (sortedEntries entries [])
  | v => v

/-- The items of an array, each sorted. -/
def sortedItems : List Value → List Value
  | [] => []
  | v :: rest => v.sorted :: sortedItems rest

/-- The entries of an object, each sorted and put in its place among `done`. -/
def sortedEntries : List (String × Value) → List (String × Value) → List (String × Value)
  | [], done => done
  | (k, v) :: rest, done => sortedEntries rest (insertEntry k v.sorted done)

end

end Value

end WarcStream
