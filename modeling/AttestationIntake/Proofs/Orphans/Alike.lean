import AttestationIntake.Proofs.Orphans.Contents

/-!
Two collections of orphans, told the same but for the receipts. Their windows stay the same. If the
receipts of one are those of the other with other labels, they stay so too, since orphans look at
receipts only to compare them with one another.
-/

namespace AttestationIntake.Orphans

variable {p : Preset} {orphans orphans' : Orphans p}

/-! ## Windows -/

structure SameWindow (orphans orphans' : Orphans p) : Prop where
  baseline_eq : orphans.baseline = orphans'.baseline
  start_eq : orphans.index.baseline = orphans'.index.baseline
  tracked_eq : orphans.index.tracked = orphans'.index.tracked
  capacity_eq : orphans.index.capacity = orphans'.index.capacity

namespace SameWindow

theorem refl (orphans : Orphans p) : SameWindow orphans orphans := ⟨rfl, rfl, rfl, rfl⟩

theorem symm (h : SameWindow orphans orphans') : SameWindow orphans' orphans :=
  ⟨h.baseline_eq.symm, h.start_eq.symm, h.tracked_eq.symm, h.capacity_eq.symm⟩

theorem trans {orphans'' : Orphans p} (h : SameWindow orphans orphans')
    (h' : SameWindow orphans' orphans'') : SameWindow orphans orphans'' :=
  ⟨h.baseline_eq.trans h'.baseline_eq, h.start_eq.trans h'.start_eq,
    h.tracked_eq.trans h'.tracked_eq, h.capacity_eq.trans h'.capacity_eq⟩

/-- Only ticks move the window. -/
theorem of_file (orphans : Orphans p) (r : Received p) :
    SameWindow orphans (orphans.file r).2 := by
  obtain ⟨rows, places, nextNumber, size, hframe⟩ := orphans.file_frame r
  rw [hframe]
  exact ⟨rfl, rfl, rfl, rfl⟩

theorem of_release (rules : ChainRules p) (orphans : Orphans p) (block : BeaconBlock p) :
    SameWindow orphans (orphans.release rules block).2.1 := by
  obtain ⟨rows, places, size, hframe⟩ := orphans.release_frame rules block
  rw [hframe]
  exact ⟨rfl, rfl, rfl, rfl⟩

theorem isInitialized_eq (h : SameWindow orphans orphans') :
    orphans.isInitialized = orphans'.isInitialized := by
  rw [isInitialized, h.baseline_eq, isInitialized]

theorem tracks_eq (h : SameWindow orphans orphans') (epoch : Epoch) :
    orphans.tracks epoch = orphans'.tracks epoch := by
  rw [tracks, tracks, h.isInitialized_eq, EpochIndex.window, EpochIndex.window, h.start_eq,
    h.tracked_eq]

theorem baselineAt_eq (h : SameWindow orphans orphans') (slot : Slot) :
    orphans.baselineAt slot = orphans'.baselineAt slot := by
  rw [baselineAt, baselineAt, h.baseline_eq]

theorem file (h : SameWindow orphans orphans') (r r' : Received p) :
    SameWindow (orphans.file r).2 (orphans'.file r').2 :=
  (of_file orphans r).symm.trans (h.trans (of_file orphans' r'))

theorem release (h : SameWindow orphans orphans') (rules : ChainRules p) (block : BeaconBlock p) :
    SameWindow (orphans.release rules block).2.1 (orphans'.release rules block).2.1 :=
  (of_release rules orphans block).symm.trans (h.trans (of_release rules orphans' block))

theorem tick (h : SameWindow orphans orphans') (slot : Slot) :
    SameWindow (orphans.tick slot).1 (orphans'.tick slot).1 := by
  obtain ⟨rows, places, size, hframe⟩ :=
    orphans.index.moveBaseline_frame (orphans.baselineAt slot)
  obtain ⟨rows', places', size', hframe'⟩ :=
    orphans'.index.moveBaseline_frame (orphans'.baselineAt slot)
  rw [tick_eq, tick_eq, hframe, hframe', ← h.baselineAt_eq, h.start_eq]
  exact ⟨rfl, rfl, h.tracked_eq, h.capacity_eq⟩

end SameWindow

/-! ## Labels -/

/-- Changes where and when attestations were received, and keeps receipts apart. -/
structure Relabels (label : Received p → Received p) : Prop where
  attestation_eq : ∀ r, (label r).attestation = r.attestation
  injective : Function.Injective label

/-- The same orphans but for the labels of their receipts. -/
structure Relabeled (label : Received p → Received p) (orphans orphans' : Orphans p) : Prop where
  window : SameWindow orphans orphans'
  holds : ∃ receipts, orphans.Holds receipts ∧ orphans'.Holds (receipts.map label)

variable {label : Received p → Received p}

namespace Relabels

theorem target_eq (h : Relabels label) (r : Received p) : (label r).target = r.target := by
  rw [Received.target, h.attestation_eq, Received.target]

theorem root_eq (h : Relabels label) (r : Received p) : (label r).root = r.root := by
  rw [Received.root, h.attestation_eq, Received.root]

theorem arrival_eq (h : Relabels label) (r : Received p) :
    (label r).arrival = r.arrival.mapValue label := by
  rw [Received.arrival, h.target_eq, h.root_eq]
  rfl

theorem listing_eq (h : Relabels label) (hwindow : SameWindow orphans orphans')
    (receipts : List (Received p)) :
    orphans'.listing (receipts.map label) = (orphans.listing receipts).mapValues label := by
  simp only [listing, ArrivalList.mapValues, List.map_map, Function.comp_def, h.arrival_eq,
    hwindow.start_eq, hwindow.tracked_eq, hwindow.capacity_eq]

end Relabels

/-- What is held after a receipt was filed, as the list of arrivals has it. -/
theorem Holds.file_listing {receipts : List (Received p)} (h : orphans.Holds receipts)
    {r : Received p} (htracks : orphans.tracks r.target = true) :
    (orphans.file r).2.Holds
      (((orphans.listing receipts).add r.target r.root r).2.arrivals.map (·.value)) := by
  have hown : ∀ a ∈ ((orphans.listing receipts).add r.target r.root r).2.arrivals,
      a = a.value.arrival := by
    intro a ha
    rcases List.mem_append.mp (ArrivalList.arrivals_add_subset _ _ _ _ ha) with ha | ha
    · obtain ⟨r', -, rfl⟩ := List.mem_map.mp ha
      rfl
    · rw [List.mem_singleton.mp ha]
      rfl
  apply h.file_of_arrivals htracks
  rw [List.map_map]
  conv_lhs => rw [← List.map_id (ArrivalList.arrivals _)]
  exact List.map_congr_left hown

namespace Relabeled

theorem mem_attestations_iff (h : Relabeled label orphans orphans') (hlabel : Relabels label)
    (a : Attestation p) : a ∈ orphans.attestations ↔ a ∈ orphans'.attestations := by
  obtain ⟨receipts, hholds, hholds'⟩ := h.holds
  rw [hholds.mem_attestations, hholds'.mem_attestations]
  simp only [List.mem_map, exists_exists_and_eq_and, hlabel.attestation_eq]

theorem values_eq (h : Relabeled label orphans orphans') (hlabel : Relabels label) :
    orphans'.index.values = orphans.index.values.map label := by
  obtain ⟨receipts, hholds, hholds'⟩ := h.holds
  rw [hholds.values_eq, hholds'.values_eq]
  refine (List.map_mergeSort ?_).symm
  intro a _ b _
  rw [hlabel.target_eq, hlabel.target_eq]

theorem file (h : Relabeled label orphans orphans') (hlabel : Relabels label) {r : Received p}
    (htracks : orphans.tracks r.target = true) :
    Relabeled label (orphans.file r).2 (orphans'.file (label r)).2 where
  window := h.window.file r (label r)
  holds := by
    obtain ⟨receipts, hholds, hholds'⟩ := h.holds
    have htracks' : orphans'.tracks (label r).target = true := by
      rwa [hlabel.target_eq, ← h.window.tracks_eq]
    have hfile := hholds'.file_listing htracks'
    rw [hlabel.listing_eq h.window, hlabel.target_eq, hlabel.root_eq,
      ArrivalList.add_mapValues hlabel.injective, ArrivalList.mapValues, List.map_map] at hfile
    refine ⟨_, hholds.file_listing htracks, ?_⟩
    rw [List.map_map]
    exact hfile

theorem release (h : Relabeled label orphans orphans') (hlabel : Relabels label)
    (rules : ChainRules p) (block : BeaconBlock p) :
    Relabeled label (orphans.release rules block).2.1 (orphans'.release rules block).2.1 where
  window := h.window.release rules block
  holds := by
    obtain ⟨receipts, hholds, hholds'⟩ := h.holds
    cases htracks : orphans.tracks (p.epochAt block.slot) with
    | false =>
      rw [release_outside rules orphans htracks,
        release_outside rules orphans' (h.window.tracks_eq _ ▸ htracks)]
      exact ⟨receipts, hholds, hholds'⟩
    | true =>
      have hrelease := (hholds'.release rules (h.window.tracks_eq _ ▸ htracks)).2
      simp only [List.filter_map, Function.comp_def, hlabel.root_eq] at hrelease
      exact ⟨_, (hholds.release rules htracks).2, hrelease⟩

theorem tick (h : Relabeled label orphans orphans') (hlabel : Relabels label) (slot : Slot) :
    Relabeled label (orphans.tick slot).1 (orphans'.tick slot).1 where
  window := h.window.tick slot
  holds := by
    obtain ⟨receipts, hholds, hholds'⟩ := h.holds
    have htick := hholds'.tick slot
    simp only [← h.window.baselineAt_eq, List.filter_map, Function.comp_def,
      hlabel.target_eq] at htick
    exact ⟨_, hholds.tick slot, htick⟩

end Relabeled

end AttestationIntake.Orphans
