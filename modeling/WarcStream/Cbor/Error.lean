import WarcStream.Cbor.Header
/-!
# Why octets are not the CBOR item of a value

Some items are not well-formed, some are well-formed and stand for no value of
the data model, such as a string of octets or a tagged item.
-/

namespace WarcStream.Cbor

/-- What is wrong with an item. -/
inductive Error where
  /-- The octets end inside the item. -/
  | truncated
  /-- The header or the text at this offset is not well-formed. -/
  | malformed (offset : Nat)
  /-- Octets are left behind the item. -/
  | trailing (count : Nat)
  /-- Too many arrays and maps are open at once. -/
  | tooDeep
  /-- An integer that is not one of the data model. -/
  | outOfRange
  /-- A negative integer of more than 127 bits. -/
  | tooLarge
  | octetString
  | tagged
  | unknownSimple
  /-- The end of an item of indefinite length where a value must stand. -/
  | stop
  /-- A map key that is not the text it must be. -/
  | key (found : Header) (first : Bool)
  /-- Another reason, in words. -/
  | other (reason : String)
  deriving DecidableEq, Repr

/-- The wording of an error. -/
def Error.message : Error → String
  | .truncated => "truncated data item"
  | .malformed offset => "syntax error at offset " ++ toString offset
  | .trailing count => toString count ++ " bytes after the data item"
  | .tooDeep => "RecursionLimitExceeded"
  | .outOfRange => "JSON number out of range"
  | .tooLarge => "integer too large"
  | .octetString => "invalid type: byte array, expected any valid JSON value"
  | .tagged => "invalid type: enum, expected any valid JSON value"
  | .unknownSimple => "invalid type: simple, expected known simple value"
  | .stop => "invalid type: break, expected non-break"
  | .key found first =>
    "invalid type: " ++ found.describe ++ ", expected " ++ (if first then "str" else "string")
  | .other reason => reason

end WarcStream.Cbor
