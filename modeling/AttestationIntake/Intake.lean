import AttestationIntake.Orphans
import AttestationIntake.Pool
import AttestationIntake.Tally

/-!
The intake routes attestations: those for known blocks go to the pool, those for unknown blocks wait
among the orphans and move to the pool when their block is imported. It keeps the tally and the
counts shown in front of notices up to date.
-/

namespace AttestationIntake

structure Intake (p : Preset) where
  pool : Pool p
  orphans : Orphans p
  tally : Option Tally := none
  shown : ShownCounts := {}

namespace Intake

variable {p : Preset} {σ : Type} [BlockStore σ]

def new (settings : Settings) (currentEpoch : Epoch) (tally : Option Tally) : Intake p where
  pool := .empty settings.historicEpochs currentEpoch
  orphans := .empty settings.orphanLookahead settings.orphanCapacity
  tally := tally

/-! ## Tally and log -/

/-- Notices with the counts that are shown at this moment. -/
def log (intake : Intake p) (notices : List Notice) : List LogLine :=
  notices.map (⟨intake.shown, ·⟩)

def countTime (intake : Intake p) (operation : String) : Intake p :=
  { intake with tally := intake.tally.map (·.countTime operation) }

def countOutcome (intake : Intake p) (outcome : Outcome) : Intake p :=
  { intake with tally := intake.tally.map (·.countOutcome outcome.label) }

/-- The type under which the tally has the lengths. -/
def collectionType : String := "AttestationIngestion"

/-- Makes the lengths of pool and orphans known. -/
def publishLengths (intake : Intake p) : Intake p :=
  let pooled := intake.pool.size
  let orphaned := intake.orphans.size
  { intake with
    shown := ⟨pooled, orphaned⟩
    tally := intake.tally.map fun tally =>
      (tally.setLength collectionType "pooled" pooled).setLength collectionType "orphaned"
        orphaned }

/-! ## Events -/

/-- Admits an attestation to the pool. -/
def addToPool (intake : Intake p) (attestation : Attestation p) : Outcome × Intake p :=
  let (outcome, pool) := intake.pool.add attestation
  (outcome, { intake with pool })

/-- Finds the place for an attestation. If the store does not know its block it is asked once more
before the attestation is filed as an orphan, as the block may have arrived in between. -/
def route (intake : Intake p) (store : σ) (received : Received p) :
    Except IntakeError Outcome × Intake p × σ × List Notice :=
  let root := received.attestation.data.beaconBlockRoot
  let (known, store) := BlockStore.lookup store root
  if known then
    let (outcome, intake) := intake.addToPool received.attestation
    (.ok outcome, intake, store, [])
  else
    let (filing, orphans, store, notices) := intake.orphans.add store received
    let intake := { intake with orphans }
    match filing with
    | .error e => (.error e, intake, store, notices)
    | .ok .outside => (.ok .untracked, intake, store, notices)
    | .ok (.kept _) => (.ok .orphaned, intake, store, notices ++ [.orphaned root])
    | .ok .blockKnown =>
        let (outcome, intake) := intake.addToPool received.attestation
        (.ok outcome, intake, store, notices ++ [.becameKnown root])

/-- Takes in an attestation. One that is refused changes nothing but the timing. -/
def submit (intake : Intake p) (store : σ) (received : Received p) :
    Except IntakeError Outcome × Intake p × σ × List LogLine :=
  let (result, routed, store, notices) := intake.route store received
  let lines := intake.log notices
  let routed := routed.countTime "submit"
  match result with
  | .error e => (.error e, routed, store, lines)
  | .ok outcome => (.ok outcome, (routed.countOutcome outcome).publishLengths, store, lines)

/-- The clock has reached `slot`. -/
def tick (intake : Intake p) (slot : Slot) : Intake p × List LogLine :=
  let (pool, pruned) := intake.pool.tick slot
  let (orphans, dropped) := intake.orphans.tick slot
  let moved := { intake with pool, orphans }
  ((moved.countTime "on_slot").publishLengths, intake.log (pruned ++ dropped))

/-- Admits released attestations one by one. Their block is known by now, so the store is not asked
about it. -/
def addReleased (intake : Intake p) (released : List (Received p)) : Intake p :=
  released.foldl (fun intake received =>
    let (outcome, intake) := intake.addToPool received.attestation
    intake.countOutcome outcome) intake

/-- Moves the attestations that waited for `block` to the pool and returns how many there were. -/
def importBlock (rules : ChainRules p) (intake : Intake p) (block : BeaconBlock p) :
    Nat × Intake p × List LogLine :=
  let (released, orphans, notices) := intake.orphans.release rules block
  let moved := (addReleased { intake with orphans } released).countTime "on_block_imported"
  (released.length, if released.isEmpty then moved else moved.publishLengths, intake.log notices)

/-- The pooled attestations that a state accepts and has not included yet. -/
def offChain? (rules : ChainRules p) (intake : Intake p) (state : BeaconState p) :
    Option (List (Attestation p)) × Intake p :=
  (intake.pool.offChain? rules state, intake.countTime "off_chain_attestations")

end Intake

end AttestationIntake
