import AttestationIntake.Bits.Delimited
import AttestationIntake.Bytes.Fixed
import AttestationIntake.Chain.Epoch

/-!
The containers that votes come in. An attestation is a vote of some committee members, marked by
its bits, for a block and two checkpoints. Blocks carry attestations, and a state records those it
has included. Signatures are carried along and never verified. By which root a block is known and
what a state takes in is up to the rules of the chain.
-/

namespace AttestationIntake

/-- The first block of an epoch. -/
structure Checkpoint where
  epoch : Epoch := 0
  root : Root := .zero
deriving DecidableEq, Inhabited

/-- What is voted for. -/
structure AttestationData where
  slot : Slot := 0
  /-- The committee, by its index. -/
  index : UInt64 := 0
  beaconBlockRoot : Root := .zero
  source : Checkpoint := {}
  target : Checkpoint := {}
deriving DecidableEq, Inhabited

structure Attestation (p : Preset) where
  aggregationBits : BitList p.committeeLimit := .empty
  data : AttestationData := {}
  signature : Signature := .zero
deriving DecidableEq, Inhabited

/-- An attestation that a state has included. -/
structure PendingAttestation (p : Preset) where
  aggregationBits : BitList p.committeeLimit
  data : AttestationData
  inclusionDelay : UInt64
  proposerIndex : UInt64
deriving DecidableEq

structure BeaconBlockBody (p : Preset) where
  randaoReveal : Signature := .zero
  graffiti : FixedBytes 32 := .zero
  attestations : List (Attestation p) := []
deriving DecidableEq, Inhabited

structure BeaconBlock (p : Preset) where
  slot : Slot := 0
  proposerIndex : UInt64 := 0
  parentRoot : Root := .zero
  stateRoot : Root := .zero
  body : BeaconBlockBody p := {}
deriving DecidableEq, Inhabited

/-- The part of a state that records the attestations of its last two epochs. -/
structure BeaconState (p : Preset) where
  slot : Slot := 0
  previousEpochAttestations : List (PendingAttestation p) := []
  currentEpochAttestations : List (PendingAttestation p) := []
deriving DecidableEq, Inhabited

/-- Names a message of the gossip network. -/
structure GossipId where
  source : String
  messageId : FixedBytes 32
deriving DecidableEq

namespace BeaconState

variable {p : Preset}

def currentEpoch (state : BeaconState p) : Epoch := p.epochAt state.slot

def previousEpoch (state : BeaconState p) : Epoch :=
  AttestationIntake.previousEpoch state.currentEpoch

/-- All recorded attestations. -/
def pendingAttestations (state : BeaconState p) : List (PendingAttestation p) :=
  state.previousEpochAttestations ++ state.currentEpochAttestations

end BeaconState

/-! ## Rules -/

/-- The rules of a chain that an intake depends on. -/
structure ChainRules (p : Preset) where
  /-- The root by which attestations refer to a block. -/
  blockRoot : BeaconBlock p → Root
  /-- Whether a state would take in an attestation. -/
  accepts : BeaconState p → Attestation p → Bool

/-- Rules that take the state root of a block for its root. A state accepts attestations that target
its current or its previous epoch, except for those for a rejected block. -/
def ChainRules.rejecting {p : Preset} (rejected : List Root) : ChainRules p where
  blockRoot block := block.stateRoot
  accepts state attestation :=
    let target := attestation.data.target.epoch
    (target == state.currentEpoch || target == state.previousEpoch) &&
      !rejected.contains attestation.data.beaconBlockRoot

end AttestationIntake
