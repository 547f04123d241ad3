import AttestationIntake.BlockStore
import AttestationIntake.Chain.Container
import AttestationIntake.EpochIndex.Basic
import AttestationIntake.Notice

/-!
Orphans: attestations for blocks that are still unknown. They wait in a bounded index by target
epoch and block root until their block is imported, or until the window, which starts at the epoch
before the current one, has moved past them. Before the first slot there is no window and nothing
waits.
-/

namespace AttestationIntake

/-- Where an attestation came from. -/
inductive Origin where
  | api
  | gossip (id : GossipId)
deriving DecidableEq

/-- An attestation with where it came from and when. Two receipts of one attestation are different
if they differ in either. -/
structure Received (p : Preset) where
  attestation : Attestation p
  origin : Origin := .api
  /-- In seconds. -/
  receivedAt : UInt64 := 0
deriving DecidableEq

structure Orphans (p : Preset) where
  /-- The first epoch that is kept, once there was a slot. -/
  baseline : Option Epoch := none
  index : EpochIndex (Received p)

/-- What became of an attestation that was handed to the orphans. -/
inductive Filing (p : Preset) where
  /-- Its block is known after all. -/
  | blockKnown
  /-- Its target epoch is outside the window. -/
  | outside
  /-- It was kept, or had been already. What had to leave for it may be itself. -/
  | kept (evicted : Option (Received p))
deriving DecidableEq

/-- Whether the block was unknown. -/
def Filing.isUnknown {p : Preset} : Filing p → Bool
  | .blockKnown => false
  | _ => true

namespace Orphans

variable {p : Preset} {σ : Type} [BlockStore σ]

def empty (lookahead : UInt64) (capacity : Capacity) : Orphans p :=
  { index := .empty (addCapped lookahead 2) capacity }

/-! ## Reading -/

def isInitialized (orphans : Orphans p) : Bool := orphans.baseline.isSome

/-- Whether attestations that target `epoch` are kept. -/
def tracks (orphans : Orphans p) (epoch : Epoch) : Bool :=
  orphans.isInitialized && orphans.index.window.contains epoch

def trackedEpochs (orphans : Orphans p) : UInt64 := orphans.index.tracked

def size (orphans : Orphans p) : Nat := orphans.index.size

/-! ## Changing -/

/-- Keeps an attestation until its block is imported. The store is asked about the block once, and
not at all before the first slot. -/
def add (orphans : Orphans p) (store : σ) (received : Received p) :
    Except IntakeError (Filing p) × Orphans p × σ × List Notice :=
  if !orphans.isInitialized then (.error .noSlotYet, orphans, store, [])
  else
    let data := received.attestation.data
    let (known, store) := BlockStore.lookup store data.beaconBlockRoot
    if known then (.ok .blockKnown, orphans, store, [])
    else if !orphans.tracks data.target.epoch then
      (.ok .outside, orphans, store, [.outsideWindow data.target.epoch orphans.index.window])
    else
      let (evicted, index) := orphans.index.add data.target.epoch data.beaconBlockRoot received
      (.ok (.kept evicted), { orphans with index }, store,
        evicted.toList.map fun e => .evicted e.attestation.data)

/-- Gives out the attestations that waited for `block`, in the order in which they were kept. A
block outside the window releases nothing. -/
def release (rules : ChainRules p) (orphans : Orphans p) (block : BeaconBlock p) :
    List (Received p) × Orphans p × List Notice :=
  if orphans.tracks (p.epochAt block.slot) then
    let root := rules.blockRoot block
    let (released, index) := orphans.index.evict root
    (released, { orphans with index },
      if released.isEmpty then [] else [.released released.length root block.slot])
  else ([], orphans, [])

/-- The clock has reached `slot`. The window starts one epoch before that of the slot, but never
moves backward. -/
def tick (orphans : Orphans p) (slot : Slot) : Orphans p × List Notice :=
  let start := previousEpoch (p.epochAt slot)
  let baseline := match orphans.baseline with
    | none => start
    | some baseline => max baseline start
  let (dropped, index) := orphans.index.moveBaseline baseline
  ({ baseline := some baseline, index }, if dropped > 0 then [.dropped dropped baseline] else [])

end Orphans

end AttestationIntake
