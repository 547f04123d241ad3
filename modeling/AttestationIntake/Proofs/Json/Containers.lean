import AttestationIntake.Json.Containers
import AttestationIntake.Proofs.Json.RoundTrips

/-!
The containers, messages of the gossip network and settings come through JSON unchanged.
-/

namespace AttestationIntake

open Codec

theorem Checkpoint.codec_faithful : Checkpoint.codec.Faithful :=
  record_faithful (by simp [Fields.names]) (fun _ => rfl)
    ⟨word_faithful, fixedBytes_faithful 32, trivial⟩

theorem AttestationData.codec_faithful : AttestationData.codec.Faithful :=
  record_faithful (by simp [Fields.names]) (fun _ => rfl)
    ⟨word_faithful, word_faithful, fixedBytes_faithful 32, Checkpoint.codec_faithful,
      Checkpoint.codec_faithful, trivial⟩

theorem Attestation.codec_faithful (p : Preset) : (Attestation.codec p).Faithful :=
  record_faithful (by simp [Fields.names]) (fun _ => rfl)
    ⟨bitList_faithful p.committeeLimit, AttestationData.codec_faithful, fixedBytes_faithful 96,
      trivial⟩

theorem PendingAttestation.codec_faithful (p : Preset) : (PendingAttestation.codec p).Faithful :=
  record_faithful (by simp [Fields.names]) (fun _ => rfl)
    ⟨bitList_faithful p.committeeLimit, AttestationData.codec_faithful, word_faithful,
      word_faithful, trivial⟩

theorem BeaconBlockBody.codec_faithful (p : Preset) : (BeaconBlockBody.codec p).Faithful :=
  record_faithful (by simp [Fields.names]) (fun _ => rfl)
    ⟨fixedBytes_faithful 96, fixedBytes_faithful 32, list_faithful (Attestation.codec_faithful p),
      trivial⟩

theorem BeaconBlock.codec_faithful (p : Preset) : (BeaconBlock.codec p).Faithful :=
  record_faithful (by simp [Fields.names]) (fun _ => rfl)
    ⟨word_faithful, word_faithful, fixedBytes_faithful 32, fixedBytes_faithful 32,
      BeaconBlockBody.codec_faithful p, trivial⟩

theorem BeaconState.codec_faithful (p : Preset) : (BeaconState.codec p).Faithful :=
  record_faithful (by simp [Fields.names]) (fun _ => rfl)
    ⟨word_faithful, list_faithful (PendingAttestation.codec_faithful p),
      list_faithful (PendingAttestation.codec_faithful p), trivial⟩

theorem GossipId.codec_faithful : GossipId.codec.Faithful :=
  record_faithful (by simp [Fields.names]) (fun _ => rfl)
    ⟨text_faithful, fixedBytes_faithful 32, trivial⟩

theorem Capacity.codec_faithful : Capacity.codec.Faithful := by
  intro capacity json h
  rw [h.eq_of_natural]
  unfold Capacity.codec Capacity.ofWord?
  simp only [dif_pos capacity.ne_zero]

theorem Settings.codec_faithful : Settings.codec.Faithful :=
  record_faithful (by decide) (fun _ => rfl)
    ⟨word_faithful, word_faithful, Capacity.codec_faithful, trivial⟩

/-- Whatever the preset, all that is written as JSON is read back as it was, with the keys of its
objects in any order and with any of its objects given by position. -/
theorem containers_roundTrip (p : Preset) :
    (Attestation.codec p).RoundTrips ∧ AttestationData.codec.RoundTrips ∧
      Checkpoint.codec.RoundTrips ∧ (PendingAttestation.codec p).RoundTrips ∧
      (BeaconState.codec p).RoundTrips ∧ (BeaconBlock.codec p).RoundTrips ∧
      (BeaconBlockBody.codec p).RoundTrips ∧ GossipId.codec.RoundTrips ∧
      Settings.codec.RoundTrips :=
  ⟨(Attestation.codec_faithful p).roundTrips, AttestationData.codec_faithful.roundTrips,
    Checkpoint.codec_faithful.roundTrips, (PendingAttestation.codec_faithful p).roundTrips,
    (BeaconState.codec_faithful p).roundTrips, (BeaconBlock.codec_faithful p).roundTrips,
    (BeaconBlockBody.codec_faithful p).roundTrips, GossipId.codec_faithful.roundTrips,
    Settings.codec_faithful.roundTrips⟩

end AttestationIntake
