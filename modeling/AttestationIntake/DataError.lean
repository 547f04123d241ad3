import AttestationIntake.Bits.Delimited
import AttestationIntake.Decimal.Layout
import AttestationIntake.Text.Quoted

/-!
What can be wrong with the data of a document that could be read as text. JSON and YAML share the
causes and differ in how they name what they found.
-/

namespace AttestationIntake

/-- What stands in a document where something else was expected. -/
inductive Found where
  | nothing
  | bool (value : Bool)
  | integer (value : Int)
  | float (value : Float)
  | text (value : String)
  | sequence
  | map

inductive DataError where
  | invalidType (found : Found) (expected : String)
  | invalidValue (found : Found) (expected : String)
  | invalidLength (length : Nat) (expected : String)
  | unknownField (name : String) (known : List String)
  | unknownVariant (name : String) (known : List String)
  | duplicateField (name : String)
  | missingField (name : String)
  | invalidBits (error : BitList.Error)
  | invalidHex (error : Hex.Error)

/-- How a kind of document names what it holds. -/
structure Wording where
  nothing : String
  float : DecimalLayout

namespace Wording

def json : Wording := ⟨"null", .compact⟩

def yaml : Wording := ⟨"unit value", .full⟩

end Wording

/-- Integers past 64 bits are named with the size that holds them. -/
def integerText (value : Int) : String :=
  if value < -0x8000000000000000 then s!"integer `{value}` as i128"
  else if value < 0x10000000000000000 then s!"integer `{value}`"
  else s!"integer `{value}` as u128"

def Found.message (wording : Wording) : Found → String
  | nothing => wording.nothing
  | bool value => s!"boolean `{value}`"
  | integer value => integerText value
  | float value => s!"floating point `{wording.float.float value}`"
  | text value => s!"string {quoteText value}"
  | sequence => "sequence"
  | map => "map"

/-- A byte as the character of the same number. -/
def byteChar (byte : UInt8) : Char := Char.ofNat byte.toNat

def BitList.Error.message : BitList.Error → String
  | noBytes => "bit list has no bytes"
  | noDelimiter => "bit list has no delimiting bit"
  | tooLong maximum actual =>
      s!"bit list is too long (maximum: {maximum}, actual: {actual})"
  | notHex .oddLength => "bit list is not valid hex: Odd number of digits"
  | notHex (.invalidDigit byte position) =>
      s!"bit list is not valid hex: Invalid character {quoteChar (byteChar byte)} " ++
        s!"at position {position}"

namespace DataError

/-- The names that would have been right. -/
def expectedNames (known : List String) : String :=
  match known.map fun name => s!"`{name}`" with
  | [] => "there are no fields"
  | [a] => s!"expected {a}"
  | [a, b] => s!"expected {a} or {b}"
  | names => "expected one of " ++ ", ".intercalate names

def message (wording : Wording) : DataError → String
  | invalidType found expected =>
      s!"invalid type: {found.message wording}, expected {expected}"
  | invalidValue found expected =>
      s!"invalid value: {found.message wording}, expected {expected}"
  | invalidLength length expected => s!"invalid length {length}, expected {expected}"
  | unknownField name known => s!"unknown field `{name}`, {expectedNames known}"
  | unknownVariant name known => s!"unknown variant `{name}`, {expectedNames known}"
  | duplicateField name => s!"duplicate field `{name}`"
  | missingField name => s!"missing field `{name}`"
  | invalidBits error => error.message
  | invalidHex .oddLength => "invalid hex: odd number of digits"
  | invalidHex (.invalidDigit byte position) =>
      s!"invalid hex character: {byteChar byte}, at {position}"

end DataError

end AttestationIntake
