import AttestationIntake.Chain.Epoch

/-!
The settings of an intake: how long attestations stay in the pool, and how far ahead and how many of
those for unknown blocks are kept.
-/

namespace AttestationIntake

/-- A number of entries, at least one. -/
structure Capacity where
  entries : UInt64
  ne_zero : entries ≠ 0 := by decide
deriving DecidableEq

namespace Capacity

def ofWord? (entries : UInt64) : Option Capacity :=
  if h : entries ≠ 0 then some ⟨entries, h⟩ else none

def toNat (capacity : Capacity) : Nat := capacity.entries.toNat

/-- The capacity that is taken where none is set. -/
def usual : Capacity := { entries := 16384 }

end Capacity

structure Settings where
  /-- How many epochs before the current one the pool retains. -/
  historicEpochs : UInt64 := 1
  /-- How many epochs past the current one attestations for unknown blocks may target. -/
  orphanLookahead : UInt64 := 1
  orphanCapacity : Capacity := .usual
deriving DecidableEq

namespace Settings

instance : Inhabited Settings := ⟨{}⟩

/-- What a setting is called where settings are written down. -/
inductive Key where
  | historicEpochs
  | orphanLookahead
  | orphanCapacity
deriving DecidableEq, Repr

namespace Key

def all : List Key := [historicEpochs, orphanLookahead, orphanCapacity]

def name : Key → String
  | historicEpochs => "HISTORIC_EPOCHS"
  | orphanLookahead => "UNKNOWN_ATTESTATION_LOOKAHEAD"
  | orphanCapacity => "UNKNOWN_ATTESTATION_CAPACITY"

def ofName? (name : String) : Option Key := all.find? (·.name == name)

end Key

/-- The previous and the current epoch, and the lookahead. -/
def trackedEpochs (settings : Settings) : UInt64 := addCapped settings.orphanLookahead 2

end Settings

end AttestationIntake
