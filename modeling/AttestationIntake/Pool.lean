import AttestationIntake.Chain.Order
import AttestationIntake.Notice
import Std.Data.ExtTreeSet

/-!
The pool of attestations for known blocks, in sorted sets by target epoch. Ticks of the clock only
move the current epoch forward; epochs before the threshold, which lies a fixed number of epochs
behind it, are dropped and not taken in again.
-/

namespace AttestationIntake

open Std (ExtTreeMap ExtTreeSet)

/-- What became of an attestation. None of these is an error. -/
inductive Outcome where
  | pooled
  | duplicate
  | stale
  | orphaned
  /-- Its block is unknown and its target epoch is none of those that orphans are kept for. -/
  | untracked
deriving DecidableEq, Repr

def Outcome.label : Outcome → String
  | pooled => "pooled"
  | duplicate => "duplicate"
  | stale => "stale"
  | orphaned => "orphaned"
  | untracked => "untracked"

structure Pool (p : Preset) where
  /-- How many epochs before the current one are retained. -/
  historic : UInt64
  currentEpoch : Epoch
  buckets : ExtTreeMap Epoch (ExtTreeSet (Attestation p)) := ∅

namespace Pool

variable {p : Preset}

def empty (historic : UInt64) (currentEpoch : Epoch) : Pool p := { historic, currentEpoch }

/-! ## Reading -/

/-- The first epoch that is retained. -/
def threshold (pool : Pool p) : Epoch := subCapped pool.currentEpoch pool.historic

/-- The attestations that target `epoch`, in ascending order. -/
def targeting (pool : Pool p) (epoch : Epoch) : List (Attestation p) :=
  (pool.buckets.getD epoch ∅).toList

/-- All attestations, by target epoch and then in their own order. -/
def attestations (pool : Pool p) : List (Attestation p) :=
  pool.buckets.toList.flatMap fun (_, bucket) => bucket.toList

def size (pool : Pool p) : Nat :=
  pool.buckets.toList.foldr (fun (_, bucket) total => bucket.size + total) 0

/-! ## Changing -/

/-- The clock has reached `slot`. -/
def tick (pool : Pool p) (slot : Slot) : Pool p × List Notice :=
  let epoch := p.epochAt slot
  if epoch ≤ pool.currentEpoch then (pool, [])
  else
    let moved := { pool with currentEpoch := epoch }
    let pruned := pool.buckets.filter fun target _ => target < moved.threshold
    let kept := pool.buckets.filter fun target _ => moved.threshold ≤ target
    ({ moved with buckets := kept },
      if pruned.isEmpty then [] else [.pruned pruned.keys epoch])

/-- Stores an attestation under its target epoch, whatever the threshold. -/
def put (pool : Pool p) (attestation : Attestation p) : Pool p :=
  let target := attestation.data.target.epoch
  { pool with
    buckets := pool.buckets.insert target ((pool.buckets.getD target ∅).insert attestation) }

/-- Takes an attestation in unless its target epoch is no longer retained. -/
def add (pool : Pool p) (attestation : Attestation p) : Outcome × Pool p :=
  let target := attestation.data.target.epoch
  if target < pool.threshold then (.stale, pool)
  else if (pool.buckets.getD target ∅).contains attestation then (.duplicate, pool)
  else (.pooled, pool.put attestation)

/-! ## What a state has not included -/

/-- Joins the bits of one more record into those of its data, which start as the longest list with
no bit set. There is no result if that list cannot take in the bits of the record. -/
def includeRecord? (included : ExtTreeMap AttestationData (BitList p.committeeLimit))
    (record : PendingAttestation p) :
    Option (ExtTreeMap AttestationData (BitList p.committeeLimit)) := do
  let before := included.getD record.data (.zeros p.committeeLimit)
  return included.insert record.data (← before.or? record.aggregationBits)

/-- For each data the bits that the records of a state have included. -/
def includedBits? (records : List (PendingAttestation p)) :
    Option (ExtTreeMap AttestationData (BitList p.committeeLimit)) :=
  records.foldlM includeRecord? ∅

/-- Whether an attestation sets other bits than those included for its data. -/
def addsBits (included : ExtTreeMap AttestationData (BitList p.committeeLimit))
    (attestation : Attestation p) : Bool :=
  match included[attestation.data]? with
  | some bits => !bits.hasSameBits attestation.aggregationBits
  | none => attestation.aggregationBits.any

/-- The attestations that `state` accepts and that set other bits than it has included, by target
epoch and then in their own order. -/
def offChain? (rules : ChainRules p) (pool : Pool p) (state : BeaconState p) :
    Option (List (Attestation p)) := do
  let included ← includedBits? state.pendingAttestations
  return pool.attestations.filter fun a => addsBits included a && rules.accepts state a

end Pool

end AttestationIntake
