import AttestationIntake.Chain.Container
import AttestationIntake.Json.Codec
import AttestationIntake.Settings

/-!
The JSON form of the containers, of settings and of preset names.
-/

namespace AttestationIntake

open Codec

def Checkpoint.codec : Codec Checkpoint :=
  record "Checkpoint" true
    (.field "epoch" word <| .field "root" (fixedBytes 32) .nil)
    (fun c => (c.epoch, c.root, ()))
    (fun (epoch, root, _) => { epoch, root })

def AttestationData.codec : Codec AttestationData :=
  record "AttestationData" true
    (.field "slot" word <| .field "index" word <| .field "beacon_block_root" (fixedBytes 32) <|
      .field "source" Checkpoint.codec <| .field "target" Checkpoint.codec .nil)
    (fun d => (d.slot, d.index, d.beaconBlockRoot, d.source, d.target, ()))
    (fun (slot, index, beaconBlockRoot, source, target, _) =>
      { slot, index, beaconBlockRoot, source, target })

def Attestation.codec (p : Preset) : Codec (Attestation p) :=
  record "Attestation" true
    (.field "aggregation_bits" (bitList p.committeeLimit) <|
      .field "data" AttestationData.codec <| .field "signature" (fixedBytes 96) .nil)
    (fun a => (a.aggregationBits, a.data, a.signature, ()))
    (fun (aggregationBits, data, signature, _) => { aggregationBits, data, signature })

def PendingAttestation.codec (p : Preset) : Codec (PendingAttestation p) :=
  record "PendingAttestation" true
    (.field "aggregation_bits" (bitList p.committeeLimit) <|
      .field "data" AttestationData.codec <| .field "inclusion_delay" word <|
      .field "proposer_index" word .nil)
    (fun a => (a.aggregationBits, a.data, a.inclusionDelay, a.proposerIndex, ()))
    (fun (aggregationBits, data, inclusionDelay, proposerIndex, _) =>
      { aggregationBits, data, inclusionDelay, proposerIndex })

def BeaconBlockBody.codec (p : Preset) : Codec (BeaconBlockBody p) :=
  record "BeaconBlockBody" true
    (.field "randao_reveal" (fixedBytes 96) <| .field "graffiti" (fixedBytes 32) <|
      .field "attestations" (list (Attestation.codec p)) .nil)
    (fun b => (b.randaoReveal, b.graffiti, b.attestations, ()))
    (fun (randaoReveal, graffiti, attestations, _) => { randaoReveal, graffiti, attestations })

def BeaconBlock.codec (p : Preset) : Codec (BeaconBlock p) :=
  record "BeaconBlock" true
    (.field "slot" word <| .field "proposer_index" word <|
      .field "parent_root" (fixedBytes 32) <| .field "state_root" (fixedBytes 32) <|
      .field "body" (BeaconBlockBody.codec p) .nil)
    (fun b => (b.slot, b.proposerIndex, b.parentRoot, b.stateRoot, b.body, ()))
    (fun (slot, proposerIndex, parentRoot, stateRoot, body, _) =>
      { slot, proposerIndex, parentRoot, stateRoot, body })

def BeaconState.codec (p : Preset) : Codec (BeaconState p) :=
  record "BeaconState" true
    (.field "slot" word <|
      .field "previous_epoch_attestations" (list (PendingAttestation.codec p)) <|
      .field "current_epoch_attestations" (list (PendingAttestation.codec p)) .nil)
    (fun s => (s.slot, s.previousEpochAttestations, s.currentEpochAttestations, ()))
    (fun (slot, previousEpochAttestations, currentEpochAttestations, _) =>
      { slot, previousEpochAttestations, currentEpochAttestations })

/-- Keys of which a gossip message has more than these are passed over. -/
def GossipId.codec : Codec GossipId :=
  record "GossipId" false
    (.field "source" text <| .field "message_id" (fixedBytes 32) .nil)
    (fun g => (g.source, g.messageId, ()))
    (fun (source, messageId, _) => { source, messageId })

def Capacity.codec : Codec Capacity where
  encode capacity := .natural capacity.entries
  decode
    | .natural value =>
        match Capacity.ofWord? value with
        | some capacity => .ok capacity
        | none => .error (.invalidValue (.integer value.toNat) "a nonzero usize")
    | .negative value => .error (.invalidValue (.integer value.toInt) "a nonzero usize")
    | json => .error (.invalidType json.found "a nonzero usize")

def Settings.codec : Codec Settings :=
  let defaults : Settings := {}
  record "PoolConfig" true
    (.optional Key.historicEpochs.name word defaults.historicEpochs <|
      .optional Key.orphanLookahead.name word defaults.orphanLookahead <|
      .optional Key.orphanCapacity.name Capacity.codec defaults.orphanCapacity .nil)
    (fun s => (s.historicEpochs, s.orphanLookahead, s.orphanCapacity, ()))
    (fun (historicEpochs, orphanLookahead, orphanCapacity, _) =>
      { historicEpochs, orphanLookahead, orphanCapacity })

/-- The preset called `name`. -/
def Preset.named (name : String) : Except DataError Preset :=
  match Preset.ofName? name with
  | some p => .ok p
  | none => .error (.unknownVariant name (Preset.all.map Preset.name))

/-- A name alone, or as the only key of an object that has nothing under it. -/
def Preset.codec : Codec Preset where
  encode p := .text p.name
  decode
    | .text name => Preset.named name
    | .object [(name, value)] => do
        let p ← Preset.named name
        match value with
        | .null => .ok p
        | json => .error (.invalidType json.found "unit")
    | .object _ => .error (.invalidValue .map "map with a single key")
    | json => .error (.invalidType json.found "string or map")

end AttestationIntake
