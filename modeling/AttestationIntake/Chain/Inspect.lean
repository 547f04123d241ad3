import AttestationIntake.Chain.Container
import AttestationIntake.Settings
import AttestationIntake.Text.Quoted

/-!
Values as messages show them: records with their name and all fields, lists in brackets.
-/

namespace AttestationIntake

/-- A record with the texts of its fields. -/
def recordText (name : String) (fields : List (String × String)) : String :=
  let entries := fields.map fun (key, value) => key ++ ": " ++ value
  name ++ " \x7b " ++ ", ".intercalate entries ++ " \x7d"

/-- The texts of the items of a list. -/
def listText (items : List String) : String :=
  "[" ++ ", ".intercalate items ++ "]"

def Checkpoint.inspect (c : Checkpoint) : String :=
  recordText "Checkpoint" [("epoch", toString c.epoch), ("root", c.root.hex)]

def AttestationData.inspect (d : AttestationData) : String :=
  recordText "AttestationData" [("slot", toString d.slot), ("index", toString d.index),
    ("beacon_block_root", d.beaconBlockRoot.hex), ("source", d.source.inspect),
    ("target", d.target.inspect)]

def Attestation.inspect {p : Preset} (a : Attestation p) : String :=
  recordText "Attestation" [("aggregation_bits", a.aggregationBits.binary),
    ("data", a.data.inspect), ("signature", a.signature.hex)]

def PendingAttestation.inspect {p : Preset} (a : PendingAttestation p) : String :=
  recordText "PendingAttestation" [("aggregation_bits", a.aggregationBits.binary),
    ("data", a.data.inspect), ("inclusion_delay", toString a.inclusionDelay),
    ("proposer_index", toString a.proposerIndex)]

def BeaconBlockBody.inspect {p : Preset} (b : BeaconBlockBody p) : String :=
  recordText "BeaconBlockBody" [("randao_reveal", b.randaoReveal.hex),
    ("graffiti", b.graffiti.hex), ("attestations", listText (b.attestations.map (·.inspect)))]

def BeaconBlock.inspect {p : Preset} (b : BeaconBlock p) : String :=
  recordText "BeaconBlock" [("slot", toString b.slot), ("proposer_index", toString b.proposerIndex),
    ("parent_root", b.parentRoot.hex), ("state_root", b.stateRoot.hex), ("body", b.body.inspect)]

def BeaconState.inspect {p : Preset} (s : BeaconState p) : String :=
  recordText "BeaconState" [("slot", toString s.slot),
    ("previous_epoch_attestations", listText (s.previousEpochAttestations.map (·.inspect))),
    ("current_epoch_attestations", listText (s.currentEpochAttestations.map (·.inspect)))]

def GossipId.inspect (g : GossipId) : String :=
  recordText "GossipId" [("source", quoteText g.source), ("message_id", g.messageId.hex)]

def Settings.inspect (s : Settings) : String :=
  recordText "PoolConfig" [("historic_epochs", toString s.historicEpochs),
    ("unknown_attestation_lookahead", toString s.orphanLookahead),
    ("unknown_attestation_capacity", toString s.orphanCapacity.entries)]

/-- The name with a capital letter. -/
def Preset.inspect : Preset → String
  | mainnet => "Mainnet"
  | minimal => "Minimal"

end AttestationIntake
