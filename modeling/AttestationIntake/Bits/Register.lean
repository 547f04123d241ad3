import AttestationIntake.Json.Codec
import Std.Data.ExtTreeMap

/-!
Bit lists in named registers, and single steps on them. A step that fails leaves every register as
it was.
-/

namespace AttestationIntake

open Std (ExtTreeMap)

abbrev Registers (max : Nat) := ExtTreeMap String (BitList max)

/-- Why a step on registers fails. -/
inductive RegisterFault where
  | noRegister
  | invalid (error : BitList.Error)
  | undecodable (error : DataError)
  /-- More bits were asked for than a list can have. -/
  | lengthAboveMax
  /-- A list was to take in a longer one. -/
  | shorterOperand
  | indexPastEnd

/-- A step that makes or changes the list in the register `name`. -/
inductive RegisterStep where
  | empty (name : String)
  | zeros (name : String) (length : Nat)
  | fill (name : String) (length : Nat) (value : Bool)
  | ofBits (name : String) (bits : List Bool)
  | ofBytes (name : String) (bytes : List UInt8)
  | decode (name : String) (json : Json)
  | copy (name source : String)
  | join (name source : String)
  | set (name : String) (index : Nat) (value : Bool)

namespace Registers

variable {max : Nat}

def read (registers : Registers max) (name : String) : Except RegisterFault (BitList max) :=
  match registers[name]? with
  | some list => .ok list
  | none => .error .noRegister

/-- The register a step writes, and the list it writes there. -/
def evaluate (registers : Registers max) :
    RegisterStep → Except RegisterFault (String × BitList max)
  | .empty name => .ok (name, .empty)
  | .zeros name length => evaluateFill name length false
  | .fill name length value => evaluateFill name length value
  | .ofBits name bits => (name, ·) <$> (BitList.ofBits bits).mapError .invalid
  | .ofBytes name bytes => (name, ·) <$> (BitList.ofBytes bytes).mapError .invalid
  | .decode name json => (name, ·) <$> ((Codec.bitList max).decode json).mapError .undecodable
  | .copy name source => (name, ·) <$> registers.read source
  | .join name source => do
      let target ← registers.read name
      match target.or? (← registers.read source) with
      | some list => .ok (name, list)
      | none => .error .shorterOperand
  | .set name index value => do
      let target ← registers.read name
      match target.set? index value with
      | some list => .ok (name, list)
      | none => .error .indexPastEnd
where
  evaluateFill (name : String) (length : Nat) (value : Bool) :
      Except RegisterFault (String × BitList max) :=
    match BitList.replicate? length value with
    | some list => .ok (name, list)
    | none => .error .lengthAboveMax

/-- Takes a step. -/
def step (registers : Registers max) (s : RegisterStep) :
    Except RegisterFault (BitList max) × Registers max :=
  match registers.evaluate s with
  | .ok (name, list) => (.ok list, registers.insert name list)
  | .error fault => (.error fault, registers)

/-- The names of the registers in the order of their lists, and by name where these are equal. -/
def order (registers : Registers max) : List String :=
  (registers.toList.mergeSort fun a b => (compare a.2 b.2).isLE).map (·.1)

/-- How many different lists there are. -/
def distinct (registers : Registers max) : Nat :=
  (registers.toList.map (·.2)).eraseDups.length

end Registers

end AttestationIntake
