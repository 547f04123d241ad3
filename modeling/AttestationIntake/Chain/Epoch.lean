import AttestationIntake.Chain.Preset

/-!
Slots and epochs. Both are 64-bit words, and arithmetic that would leave their range stops at its
end. A preset fixes how many slots an epoch has, so slots convert to epochs by division; the first
slot of an epoch is the product, or the last slot of all where the product is too large.
-/

namespace AttestationIntake

abbrev Slot := UInt64
abbrev Epoch := UInt64

/-- The greatest word. -/
def wordMax : UInt64 := 0xffffffffffffffff

/-- The sum, or the greatest word where the sum is above it. -/
def addCapped (a b : UInt64) : UInt64 :=
  if a.toNat + b.toNat < UInt64.size then a + b else wordMax

/-- The difference, or zero where it would be negative. -/
def subCapped (a b : UInt64) : UInt64 :=
  if b ≤ a then a - b else 0

/-- The product, or the greatest word where the product is above it. -/
def mulCapped (a b : UInt64) : UInt64 :=
  if a.toNat * b.toNat < UInt64.size then a * b else wordMax

/-- The epoch before `epoch`, or the first one where there is none before. -/
def previousEpoch (epoch : Epoch) : Epoch := subCapped epoch 1

namespace Preset

/-- The epoch in which `slot` lies. -/
def epochAt (p : Preset) (slot : Slot) : Epoch := slot / p.slotsPerEpoch

/-- The first slot of `epoch`. -/
def startSlot (p : Preset) (epoch : Epoch) : Slot := mulCapped epoch p.slotsPerEpoch

end Preset

/-- The epochs from `start` on that are below `stop`. -/
structure EpochWindow where
  start : Epoch
  stop : Epoch
deriving DecidableEq, Repr

namespace EpochWindow

def contains (window : EpochWindow) (epoch : Epoch) : Bool :=
  window.start ≤ epoch && epoch < window.stop

def text (window : EpochWindow) : String :=
  s!"{window.start}..{window.stop}"

end EpochWindow

end AttestationIntake
