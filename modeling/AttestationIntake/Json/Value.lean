/-!
JSON values. Objects keep the order of their keys, because what is wrong with a record depends on
which key comes first. Numbers are whole numbers of 64 bits with or without a sign, or binary
floating-point numbers.
-/

namespace AttestationIntake

inductive Json where
  | null
  | bool (value : Bool)
  | natural (value : UInt64)
  /-- A whole number below zero. -/
  | negative (value : Int64)
  | float (value : Float)
  | text (value : String)
  | array (items : List Json)
  | object (fields : List (String × Json))
deriving Inhabited

namespace Json

/-- A natural number below `2 ^ 64`. -/
def ofNat (n : Nat) : Json := natural n.toUInt64

/-- Gives `key` the value `value`: where the key is already, or else at the end. -/
def setField (key : String) (value : Json) : List (String × Json) → List (String × Json)
  | [] => [(key, value)]
  | field :: fields =>
      if field.1 = key then (key, value) :: fields else field :: setField key value fields

/-- The value of a key of an object. -/
def field? (key : String) : Json → Option Json
  | object fields => (fields.find? (·.1 == key)).map (·.2)
  | _ => none

end Json

end AttestationIntake
