import WarcStream.Value
/-!
# Plain values

Messages are made of texts, natural numbers, lists and objects that are nested
a few levels deep. `Value.Plain` holds of such values, with a bound on the
nesting and a condition on the keys.
-/

namespace WarcStream.Value

/-- A value without negative or fractional numbers that is nested at most so deep, with such
keys. -/
inductive Plain (key : String → Prop) : Nat → Value → Prop
  | null {depth : Nat} : Plain key depth .null
  | bool {depth : Nat} (b : Bool) : Plain key depth (.bool b)
  | natural {depth : Nat} (n : UInt64) : Plain key depth (.natural n)
  | string {depth : Nat} (s : String) : Plain key depth (.string s)
  | array {depth : Nat} {items : List Value} :
      (∀ v ∈ items, Plain key depth v) → Plain key (depth + 1) (.array items)
  | object {depth : Nat} {entries : List (String × Value)} :
      (∀ entry ∈ entries, key entry.1) → (∀ entry ∈ entries, Plain key depth entry.2) →
      Plain key (depth + 1) (.object entries)

end WarcStream.Value
