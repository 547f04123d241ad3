/-!
Presets fix the constants of a chain. `mainnet` is the one taken where none is named; `minimal` has
short epochs.
-/

namespace AttestationIntake

inductive Preset where
  | mainnet
  | minimal
deriving DecidableEq, Repr

namespace Preset

instance : Inhabited Preset := ⟨mainnet⟩

def slotsPerEpoch : Preset → UInt64
  | mainnet => 32
  | minimal => 8

/-- The greatest number of members of a committee, hence of bits in an attestation. -/
def committeeLimit : Preset → Nat
  | mainnet => 2048
  | minimal => 2048

def all : List Preset := [mainnet, minimal]

def name : Preset → String
  | mainnet => "mainnet"
  | minimal => "minimal"

/-- The preset of a given name. Case and blanks count. -/
def ofName? (name : String) : Option Preset :=
  all.find? (·.name == name)

end Preset

end AttestationIntake
