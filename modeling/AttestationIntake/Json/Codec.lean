import AttestationIntake.Bytes.Fixed
import AttestationIntake.DataError
import AttestationIntake.Json.Value

/-!
Codecs: how values of a type are written as JSON, and how they are read back or refused. Records are
written as objects with their fields in order. They are read from objects with the keys in any
order, or from arrays of the values in the order of the fields.
-/

namespace AttestationIntake

def Json.found : Json → Found
  | null => .nothing
  | bool value => .bool value
  | natural value => .integer value.toNat
  | negative value => .integer value.toInt
  | float value => .float value
  | text value => .text value
  | array _ => .sequence
  | object _ => .map

structure Codec (α : Type) where
  encode : α → Json
  decode : Json → Except DataError α

namespace Codec

/-! ## Leaves and lists -/

def word : Codec UInt64 where
  encode := .natural
  decode
    | .natural value => .ok value
    | .negative value => .error (.invalidValue (.integer value.toInt) "u64")
    | json => .error (.invalidType json.found "u64")

def text : Codec String where
  encode := .text
  decode
    | .text value => .ok value
    | json => .error (.invalidType json.found "a string")

def fixedBytes (n : Nat) : Codec (FixedBytes n) :=
  let expected :=
    s!"a (both 0x-prefixed or not) hex string or byte array containing {n} bytes"
  { encode := fun b => .text b.hex
    decode
      | .text value =>
          match FixedBytes.ofHex n value with
          | .ok bytes => .ok bytes
          | .error (.length actual) => .error (.invalidLength actual expected)
          | .error (.notHex error) => .error (.invalidHex error)
      | json => .error (.invalidType json.found expected) }

def bitList (max : Nat) : Codec (BitList max) where
  encode list := .text list.toHex
  decode json := do
    match BitList.ofHex (← text.decode json) with
    | .ok list => .ok list
    | .error error => .error (.invalidBits error)

def decodeList {α : Type} (item : Codec α) : List Json → Except DataError (List α)
  | [] => .ok []
  | json :: rest => do
      let value ← item.decode json
      let values ← decodeList item rest
      return value :: values

def list {α : Type} (item : Codec α) : Codec (List α) where
  encode values := .array (values.map item.encode)
  decode
    | .array items => decodeList item items
    | json => .error (.invalidType json.found "a sequence")

/-! ## Records -/

/-- One value of each type. -/
def Tuple : List Type → Type
  | [] => Unit
  | α :: types => α × Tuple types

/-- At most one value of each type. -/
def Slots : List Type → Type
  | [] => Unit
  | α :: types => Option α × Slots types

/-- The fields of a record, with a value for those that may be left out. -/
inductive Fields : List Type → Type 1 where
  | nil : Fields []
  | cons {α : Type} {types : List Type} (name : String) (codec : Codec α) (absent : Option α)
      (rest : Fields types) : Fields (α :: types)

namespace Fields

def names : {types : List Type} → Fields types → List String
  | _, nil => []
  | _, cons name _ _ rest => name :: rest.names

def noSlots : {types : List Type} → Fields types → Slots types
  | _, nil => ()
  | _, cons _ _ _ rest => (none, rest.noSlots)

/-- Reads the value of the field `key` into its slot. There is no result if no field has this
name; a field that has its value already is an error. -/
def put? : {types : List Type} → Fields types → Slots types → String → Json →
    Option (Except DataError (Slots types))
  | _, nil, _, _, _ => none
  | _, cons name codec _ rest, (slot, slots), key, json =>
      if name = key then
        some <| match slot with
          | some _ => .error (.duplicateField key)
          | none => do return (some (← codec.decode json), slots)
      else (rest.put? slots key json).map fun result => do return (slot, ← result)

/-- Reads fields in the order in which they are given and stops at the first that is wrong. -/
def read {types : List Type} (fields : Fields types) (strict : Bool) :
    List (String × Json) → Slots types → Except DataError (Slots types)
  | [], slots => .ok slots
  | (key, json) :: rest, slots =>
      match fields.put? slots key json with
      | some result => do fields.read strict rest (← result)
      | none =>
          if strict then .error (.unknownField key fields.names)
          else fields.read strict rest slots

/-- The values of all slots. The first field that has none and needs one is missing. -/
def finish : {types : List Type} → Fields types → Slots types → Except DataError (Tuple types)
  | _, nil, _ => .ok ()
  | _, cons name _ absent rest, (slot, slots) =>
      match slot.or absent with
      | some value => do return (value, ← rest.finish slots)
      | none => .error (.missingField name)

/-- Reads the values in the order of the fields. `short` is the error for too few of them. -/
def readItems (short : DataError) : {types : List Type} → Fields types → List Json →
    Except DataError (Tuple types)
  | _, nil, _ => .ok ()
  | _, cons _ codec _ rest, json :: items => do
      let value ← codec.decode json
      return (value, ← rest.readItems short items)
  | _, cons _ _ absent rest, [] =>
      match absent with
      | some value => do return (value, ← rest.readItems short [])
      | none => .error short

def write : {types : List Type} → Fields types → Tuple types → List (String × Json)
  | _, nil, _ => []
  | _, cons name codec _ rest, (value, values) => (name, codec.encode value) :: rest.write values

end Fields

/-- A record called `name`. A strict one refuses keys that are none of its fields. -/
def record {α : Type} {types : List Type} (name : String) (strict : Bool) (fields : Fields types)
    (toTuple : α → Tuple types) (ofTuple : Tuple types → α) : Codec α where
  encode value := .object (fields.write (toTuple value))
  decode
    | .object entries => do
        let slots ← fields.read strict entries fields.noSlots
        return ofTuple (← fields.finish slots)
    | .array items => do
        let count := types.length
        let tuple ← fields.readItems
          (.invalidLength items.length s!"struct {name} with {count} elements") items
        if count < items.length then
          .error (.invalidLength items.length "fewer elements in array")
        else return ofTuple tuple
    | json => .error (.invalidType json.found s!"struct {name}")

/-- A field that every record of its kind has. -/
abbrev Fields.field {α : Type} {types : List Type} (name : String) (codec : Codec α)
    (rest : Fields types) : Fields (α :: types) :=
  .cons name codec none rest

/-- A field that takes `absent` where it is left out. -/
abbrev Fields.optional {α : Type} {types : List Type} (name : String) (codec : Codec α)
    (absent : α) (rest : Fields types) : Fields (α :: types) :=
  .cons name codec (some absent) rest

end Codec

end AttestationIntake
