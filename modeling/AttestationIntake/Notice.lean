import AttestationIntake.Chain.Inspect

/-!
Notices: what the parts of an intake report while they work. A notice is a cause with its details;
how serious it is and what it says follow from the cause. Notices are shown behind the counts of
pooled and orphaned attestations as they were last made known.
-/

namespace AttestationIntake

inductive Severity where
  | trace
  | debug
  | info
  | warning
deriving DecidableEq, Repr

def Severity.label : Severity → String
  | trace => "TRACE"
  | debug => "DEBUG"
  | info => "INFO"
  | warning => "WARN"

/-- Why an attestation was not taken in. -/
inductive IntakeError where
  /-- It is for an unknown block, and no slot has said yet which epochs to keep. -/
  | noSlotYet
deriving DecidableEq, Repr

def IntakeError.message : IntakeError → String
  | noSlotYet => "orphan attestation registry has not received a slot yet"

inductive Notice where
  | pruned (epochs : List Epoch) (current : Epoch)
  | outsideWindow (target : Epoch) (window : EpochWindow)
  | evicted (data : AttestationData)
  | released (count : Nat) (root : Root) (slot : Slot)
  | dropped (count : Nat) (baseline : Epoch)
  | orphaned (root : Root)
  | becameKnown (root : Root)
  | refused (error : IntakeError)
  | replyLost
  | messageLost
  | stopped
deriving DecidableEq

namespace Notice

def severity : Notice → Severity
  | outsideWindow .. | orphaned _ => .trace
  | refused _ | replyLost => .warning
  | stopped => .info
  | _ => .debug

def text : Notice → String
  | pruned epochs current =>
      s!"pruned attestations from epochs {listText (epochs.map toString)} " ++
        s!"(current epoch: {current})"
  | outsideWindow target window =>
      "ignoring orphan attestation outside of tracked epochs " ++
        s!"(target epoch: {target}, window: {window.text})"
  | evicted data =>
      s!"orphan attestation evicted because capacity was reached (data: {data.inspect})"
  | released count root slot =>
      s!"released {count} orphan attestations (block_root: {root.hex}, slot: {slot})"
  | dropped count baseline => s!"dropped {count} orphan attestations before epoch {baseline}"
  | orphaned root => s!"attestation for unknown block orphaned (block_root: {root.hex})"
  | becameKnown root =>
      s!"block became known while routing attestation (block_root: {root.hex})"
  | refused error => s!"attestation could not be submitted: {error.message}"
  | replyLost => "failed to send response because the receiver was dropped"
  | messageLost =>
      "send to attestation ingestion service failed because the receiver was dropped"
  | stopped => "attestation ingestion service stopped"

end Notice

/-- The counts of pooled and orphaned attestations that are shown in front of notices. -/
structure ShownCounts where
  pooled : Nat := 0
  orphaned : Nat := 0
deriving DecidableEq, Repr, Inhabited

namespace ShownCounts

def text (counts : ShownCounts) : String :=
  s!"pooled: {counts.pooled}, orphaned: {counts.orphaned}"

def inspect (counts : ShownCounts) : String :=
  recordText "PoolLogMetrics" [("pooled_attestation_count", toString counts.pooled),
    ("orphaned_attestation_count", toString counts.orphaned)]

end ShownCounts

/-- A notice with the counts it is shown with. -/
structure LogLine where
  counts : ShownCounts
  notice : Notice
deriving DecidableEq

namespace LogLine

def text (line : LogLine) : String :=
  s!"{line.notice.severity.label} [{line.counts.text}] {line.notice.text}"

end LogLine

end AttestationIntake
