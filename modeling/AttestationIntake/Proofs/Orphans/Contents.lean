import AttestationIntake.Orphans
import AttestationIntake.Proofs.EpochIndex.WellFormed

/-!
What orphans hold: a list of receipts in the order of arrival, each filed under its own target epoch
and block root, and each targeting an epoch of the window. Keeping, releasing and ticking change
that list.
-/

namespace AttestationIntake

variable {p : Preset}

namespace Received

def target (received : Received p) : Epoch := received.attestation.data.target.epoch

def root (received : Received p) : Root := received.attestation.data.beaconBlockRoot

/-- A receipt as it is filed. -/
def arrival (received : Received p) : Arrival (Received p) :=
  ⟨received.target, received.root, received⟩

end Received

namespace Orphans

/-- The list of arrivals that the receipts would make in the index of these orphans. -/
def listing (orphans : Orphans p) (receipts : List (Received p)) : ArrivalList (Received p) where
  arrivals := receipts.map (·.arrival)
  baseline := orphans.index.baseline
  tracked := orphans.index.tracked
  capacity := orphans.index.capacity

/-- The orphans are exactly these receipts. Before the first slot the window is that of an empty
index and nothing is tracked, so there are none. -/
structure Holds (orphans : Orphans p) (receipts : List (Received p)) : Prop where
  simulates : Simulates orphans.index (orphans.listing receipts)
  bounded : (orphans.listing receipts).Bounded
  baseline_eq : orphans.index.baseline = orphans.baseline.getD 0
  tracks : ∀ r ∈ receipts, orphans.tracks r.target = true

variable {orphans : Orphans p} {receipts : List (Received p)}

/-! ## The window -/

theorem tracks_iff (orphans : Orphans p) (epoch : Epoch) :
    orphans.tracks epoch = true ↔ orphans.isInitialized = true ∧
      orphans.index.baseline.toNat ≤ epoch.toNat ∧ epoch.toNat <
        min (orphans.index.baseline.toNat + orphans.index.tracked.toNat) (UInt64.size - 1) := by
  rw [tracks, EpochIndex.window, EpochWindow.contains, Bool.and_eq_true, Bool.and_eq_true,
    decide_eq_true_eq, decide_eq_true_eq, UInt64.le_iff_toNat_le, UInt64.lt_iff_toNat_lt,
    toNat_addCapped]

theorem not_tracks_of_baseline_eq_none (h : orphans.baseline = none) (epoch : Epoch) :
    orphans.tracks epoch = false := by
  rw [tracks, isInitialized, h]
  rfl

/-! ## Reading -/

/-- The attestations that wait, by target epoch and then in the order of arrival. -/
def attestations (orphans : Orphans p) : List (Attestation p) :=
  orphans.index.values.map (·.attestation)

theorem Holds.of_list {list : ArrivalList (Received p)} (hsimulates : Simulates orphans.index list)
    (hbounded : list.Bounded) (harrivals : list.arrivals = receipts.map (·.arrival))
    (hbaseline : orphans.index.baseline = orphans.baseline.getD 0)
    (htracks : ∀ r ∈ receipts, orphans.tracks r.target = true) : orphans.Holds receipts := by
  have hlisting : orphans.listing receipts = list := by
    rw [listing, ← harrivals, ← hsimulates.baseline, ← hsimulates.tracked, ← hsimulates.capacity]
  exact ⟨hlisting ▸ hsimulates, hlisting ▸ hbounded, hbaseline, htracks⟩

theorem holds_empty (lookahead : UInt64) (capacity : Capacity) :
    (empty lookahead capacity : Orphans p).Holds [] :=
  .of_list (.empty _ capacity) (.empty _ capacity) rfl rfl (by simp)

namespace Holds

theorem size_eq (h : orphans.Holds receipts) : orphans.size = receipts.length := by
  have hsize := congrArg IndexReading.size h.simulates.reading_eq
  exact hsize.trans (List.length_map _)

theorem size_le (h : orphans.Holds receipts) : orphans.size ≤ orphans.index.capacity.toNat := by
  rw [h.size_eq]
  exact Nat.le_trans (Nat.le_of_eq (List.length_map _).symm) h.bounded.length_le

theorem values_eq (h : orphans.Holds receipts) :
    orphans.index.values = receipts.mergeSort fun a b => a.target ≤ b.target := by
  have hvalues := congrArg IndexReading.values h.simulates.reading_eq
  have hsort : (receipts.mergeSort fun a b => a.target ≤ b.target).map (·.arrival) =
      (receipts.map (·.arrival)).mergeSort fun a b => a.epoch ≤ b.epoch :=
    List.map_mergeSort fun _ _ _ _ => rfl
  refine hvalues.trans ?_
  show ((receipts.map (·.arrival)).mergeSort fun a b => a.epoch ≤ b.epoch).map (·.value) = _
  rw [← hsort, List.map_map]
  exact List.map_id _

theorem mem_values (h : orphans.Holds receipts) (r : Received p) :
    r ∈ orphans.index.values ↔ r ∈ receipts := by
  rw [h.values_eq, List.mem_mergeSort]

theorem mem_attestations (h : orphans.Holds receipts) (a : Attestation p) :
    a ∈ orphans.attestations ↔ ∃ r ∈ receipts, r.attestation = a := by
  simp only [attestations, List.mem_map, h.mem_values]

/-- What stands in the rows stands there under its own epoch and root. -/
theorem of_mem_rows (h : orphans.Holds receipts) {epoch : Epoch} {number : Nat} {root : Root}
    {r : Received p} (hrow : orphans.index.rows.find? epoch number = some (root, r)) :
    r ∈ receipts ∧ epoch = r.target ∧ root = r.root ∧
      orphans.index.places.find? root number = some epoch := by
  obtain ⟨numbered, hrep, harrivals⟩ := h.simulates.arrivals
  have hmem := (hrep.mem_rows ..).mp hrow
  have hplace := (hrep.mem_places ..).mpr ⟨r, hmem⟩
  have harrival : (⟨epoch, root, r⟩ : Arrival (Received p)) ∈ receipts.map (·.arrival) := by
    rw [show receipts.map (·.arrival) = numbered.map (·.2) from harrivals]
    exact List.mem_map_of_mem hmem
  obtain ⟨r', hr', heq⟩ := List.mem_map.mp harrival
  cases heq
  exact ⟨hr', rfl, rfl, hplace⟩

/-- The places of a root lead to the rows. -/
theorem of_mem_places (h : orphans.Holds receipts) {root : Root} {number : Nat} {epoch : Epoch}
    (hplace : orphans.index.places.find? root number = some epoch) :
    ∃ r, orphans.index.rows.find? epoch number = some (root, r) := by
  obtain ⟨numbered, hrep, -⟩ := h.simulates.arrivals
  obtain ⟨r, hmem⟩ := (hrep.mem_places ..).mp hplace
  exact ⟨r, (hrep.mem_rows ..).mpr hmem⟩

end Holds

/-! ## Keeping -/

/-- Puts a receipt into the index, whatever its epoch. -/
def file (orphans : Orphans p) (received : Received p) : Option (Received p) × Orphans p :=
  let (evicted, index) := orphans.index.add received.target received.root received
  (evicted, { orphans with index })

/-- All that can become of a receipt. -/
theorem add_cases {σ : Type} [BlockStore σ] (orphans : Orphans p) (store : σ) (r : Received p) :
    (orphans.isInitialized = false ∧
        orphans.add store r = (.error .noSlotYet, orphans, store, [])) ∨
      (orphans.isInitialized = true ∧ (BlockStore.lookup store r.root).1 = true ∧
        orphans.add store r =
          (.ok .blockKnown, orphans, (BlockStore.lookup store r.root).2, [])) ∨
      (orphans.isInitialized = true ∧ (BlockStore.lookup store r.root).1 = false ∧
        orphans.tracks r.target = false ∧ orphans.add store r =
          (.ok .outside, orphans, (BlockStore.lookup store r.root).2,
            [.outsideWindow r.target orphans.index.window])) ∨
      ((BlockStore.lookup store r.root).1 = false ∧ orphans.tracks r.target = true ∧
        orphans.add store r =
          (.ok (.kept (orphans.file r).1), (orphans.file r).2, (BlockStore.lookup store r.root).2,
            (orphans.file r).1.toList.map fun e => .evicted e.attestation.data)) := by
  cases hinit : orphans.isInitialized with
  | false => exact .inl ⟨rfl, by rw [add, hinit]; rfl⟩
  | true =>
    right
    cases hknown : (BlockStore.lookup store r.root).1 with
    | true =>
      refine .inl ⟨rfl, rfl, ?_⟩
      rw [add, hinit]
      exact if_pos hknown
    | false =>
      right
      have hunknown : ¬(BlockStore.lookup store r.root).1 = true := by simp [hknown]
      cases htracks : orphans.tracks r.target with
      | false =>
        refine .inl ⟨rfl, rfl, rfl, ?_⟩
        rw [add, hinit]
        refine (if_neg hunknown).trans (if_pos ?_)
        show (!orphans.tracks r.target) = true
        rw [htracks]
        rfl
      | true =>
        refine .inr ⟨rfl, rfl, ?_⟩
        rw [add, hinit]
        refine (if_neg hunknown).trans (if_neg ?_)
        show ¬(!orphans.tracks r.target) = true
        rw [htracks]
        exact Bool.false_ne_true

theorem file_frame (orphans : Orphans p) (r : Received p) : ∃ rows places nextNumber size,
    (orphans.file r).2 =
      { orphans with index := { orphans.index with rows, places, nextNumber, size } } := by
  obtain ⟨rows, places, nextNumber, size, hframe⟩ := orphans.index.add_frame r.target r.root r
  exact ⟨rows, places, nextNumber, size, congrArg (fun index => { orphans with index }) hframe⟩

@[simp]
theorem tracks_file (orphans : Orphans p) (r : Received p) (epoch : Epoch) :
    (orphans.file r).2.tracks epoch = orphans.tracks epoch := by
  obtain ⟨rows, places, nextNumber, size, hframe⟩ := orphans.file_frame r
  rw [hframe]
  rfl

/-- The orphans hold other receipts after one was filed, if the list of arrivals does. -/
theorem Holds.file_of_arrivals (h : orphans.Holds receipts) {r : Received p}
    (htracks : orphans.tracks r.target = true) {receipts' : List (Received p)}
    (harrivals : ((orphans.listing receipts).add r.target r.root r).2.arrivals =
      receipts'.map (·.arrival)) :
    (orphans.file r).2.Holds receipts' := by
  obtain ⟨rows, places, nextNumber, size, hframe⟩ := orphans.file_frame r
  refine .of_list (h.simulates.add r.target r.root r).2 (h.bounded.add r.target r.root r)
    harrivals ?_ ?_
  · rw [hframe]
    exact h.baseline_eq
  · intro r' hr'
    rw [tracks_file]
    have harrival : r'.arrival ∈ ((orphans.listing receipts).add r.target r.root r).2.arrivals := by
      rw [harrivals]
      exact List.mem_map_of_mem hr'
    rcases List.mem_append.mp (ArrivalList.arrivals_add_subset _ _ _ _ harrival) with hmem | hmem
    · obtain ⟨old, hold, heq⟩ := List.mem_map.mp hmem
      rw [← show old = r' from congrArg Arrival.value heq]
      exact h.tracks old hold
    · rw [show r' = r from congrArg Arrival.value (List.mem_singleton.mp hmem)]
      exact htracks

theorem exists_arrival_iff (receipts : List (Received p)) (r : Received p) :
    (∃ a ∈ (orphans.listing receipts).arrivals,
      a.epoch = r.target ∧ a.root = r.root ∧ (a.value == r) = true) ↔ r ∈ receipts := by
  simp only [listing, List.mem_map, beq_iff_eq]
  constructor
  · rintro ⟨_, ⟨_, hmem, rfl⟩, -, -, rfl⟩
    exact hmem
  · exact fun hmem => ⟨r.arrival, ⟨r, hmem, rfl⟩, rfl, rfl, rfl⟩

/-- What the list of arrivals does, in terms of receipts. -/
theorem Holds.file_split (h : orphans.Holds receipts) {r : Received p}
    (htracks : orphans.tracks r.target = true) :
    (r ∈ receipts ∧ (orphans.file r).1 = none ∧ (orphans.file r).2.Holds receipts) ∨
      (r ∉ receipts ∧ receipts.length < orphans.index.capacity.toNat ∧
        (orphans.file r).1 = none ∧ (orphans.file r).2.Holds (receipts ++ [r])) ∨
      (r ∉ receipts ∧ receipts.length = orphans.index.capacity.toNat ∧
        ∃ before oldest after, receipts ++ [r] = before ++ oldest :: after ∧
          (∀ b ∈ before, oldest.target < b.target) ∧ (∀ a ∈ after, oldest.target ≤ a.target) ∧
          (orphans.file r).1 = some oldest ∧ (orphans.file r).2.Holds (before ++ after)) := by
  have hanswer : (orphans.file r).1 = ((orphans.listing receipts).add r.target r.root r).1 :=
    (h.simulates.add r.target r.root r).1
  have hlength : (orphans.listing receipts).arrivals.length = receipts.length := List.length_map _
  have hbound : receipts.length ≤ orphans.index.capacity.toNat := h.size_eq ▸ h.size_le
  have hcases := (orphans.listing receipts).add_cases r.target r.root r
  rw [exists_arrival_iff, hlength] at hcases
  rcases hcases with ⟨hold, hadd⟩ | ⟨hnew, hroom, hadd⟩ |
    ⟨hnew, hfull, b, o, a, hsplit, hb, ha, hadd⟩
  · refine .inl ⟨hold, by rw [hanswer, hadd], h.file_of_arrivals htracks ?_⟩
    rw [hadd]
    rfl
  · refine .inr (.inl ⟨hnew, hroom, by rw [hanswer, hadd], h.file_of_arrivals htracks ?_⟩)
    rw [hadd, List.map_append]
    rfl
  · -- The arrivals were split, and each is that of a receipt.
    have hmap : (receipts ++ [r]).map (·.arrival) = b ++ o :: a := by
      rw [List.map_append]
      exact hsplit
    obtain ⟨before, rest, hreceipts, rfl, hrest⟩ := List.map_eq_append_iff.mp hmap
    obtain ⟨oldest, after, rfl, rfl, rfl⟩ := List.map_eq_cons_iff.mp hrest
    rw [List.forall_mem_map] at hb ha
    refine .inr (.inr ⟨hnew, Nat.le_antisymm hbound hfull, before, oldest, after, hreceipts, hb, ha,
      by rw [hanswer, hadd]; rfl, h.file_of_arrivals htracks ?_⟩)
    rw [hadd, List.map_append]

/-- A new receipt stands behind all others. If there is no room for it, the first receipt of the
lowest epoch leaves. That is the new one itself if all others target later epochs. -/
theorem Holds.file (h : orphans.Holds receipts) {r : Received p}
    (htracks : orphans.tracks r.target = true) :
    (r ∈ receipts ∧ (orphans.file r).1 = none ∧ (orphans.file r).2.Holds receipts) ∨
      (r ∉ receipts ∧ receipts.length < orphans.index.capacity.toNat ∧
        (orphans.file r).1 = none ∧ (orphans.file r).2.Holds (receipts ++ [r])) ∨
      (r ∉ receipts ∧ receipts.length = orphans.index.capacity.toNat ∧
        (∀ other ∈ receipts, r.target < other.target) ∧
        (orphans.file r).1 = some r ∧ (orphans.file r).2.Holds receipts) ∨
      (r ∉ receipts ∧ receipts.length = orphans.index.capacity.toNat ∧
        ∃ before oldest after, receipts = before ++ oldest :: after ∧
          (∀ b ∈ before, oldest.target < b.target) ∧ (∀ a ∈ after, oldest.target ≤ a.target) ∧
          oldest.target ≤ r.target ∧ (orphans.file r).1 = some oldest ∧
          (orphans.file r).2.Holds (before ++ after ++ [r])) := by
  rcases h.file_split htracks with hold | hroom | ⟨hnew, hfull, before, oldest, after, hsplit,
    hbefore, hafter, hevicted, hfile⟩
  · exact .inl hold
  · exact .inr (.inl hroom)
  -- The new receipt is the last one, so it is the one that leaves or one of those behind it.
  · rcases List.eq_nil_or_concat' after with rfl | ⟨middle, last, rfl⟩
    · obtain ⟨rfl, hlast⟩ := List.append_inj' hsplit rfl
      cases hlast
      exact .inr (.inr (.inl ⟨hnew, hfull, hbefore, hevicted, List.append_nil receipts ▸ hfile⟩))
    · rw [← List.cons_append, ← List.append_assoc] at hsplit
      obtain ⟨rfl, hlast⟩ := List.append_inj' hsplit rfl
      cases hlast
      rw [List.forall_mem_append, List.forall_mem_singleton] at hafter
      rw [← List.append_assoc] at hfile
      exact .inr (.inr (.inr ⟨hnew, hfull, before, oldest, middle, rfl, hbefore, hafter.1, hafter.2,
        hevicted, hfile⟩))

/-- Filing brings in one receipt and no other. -/
theorem Holds.exists_file (h : orphans.Holds receipts) {r : Received p}
    (htracks : orphans.tracks r.target = true) :
    ∃ receipts', (orphans.file r).2.Holds receipts' ∧ receipts' ⊆ receipts ++ [r] := by
  rcases h.file htracks with ⟨-, -, hfile⟩ | ⟨-, -, -, hfile⟩ | ⟨-, -, -, -, hfile⟩ |
    ⟨-, -, before, oldest, after, rfl, -, -, -, -, hfile⟩ <;> refine ⟨_, hfile, ?_⟩
  · exact List.subset_append_left _ _
  · exact List.Subset.refl _
  · exact List.subset_append_left _ _
  · intro r' hr'
    simp only [List.mem_append, List.mem_cons] at hr' ⊢
    tauto

theorem Holds.file_of_room (h : orphans.Holds receipts) {r : Received p}
    (htracks : orphans.tracks r.target = true)
    (hroom : receipts.length < orphans.index.capacity.toNat) :
    (orphans.file r).2.Holds (receipts ++ if r ∈ receipts then [] else [r]) := by
  rcases h.file htracks with ⟨hold, -, hfile⟩ | ⟨hnew, -, -, hfile⟩ | ⟨-, hfull, -⟩ | ⟨-, hfull, -⟩
  · rwa [if_pos hold, List.append_nil]
  · rwa [if_neg hnew]
  · exact absurd hfull (Nat.ne_of_lt hroom)
  · exact absurd hfull (Nat.ne_of_lt hroom)

theorem Holds.mem_attestations_of_file (h : orphans.Holds receipts) {r : Received p}
    (htracks : orphans.tracks r.target = true) {a : Attestation p}
    (ha : a ∈ (orphans.file r).2.attestations) :
    a ∈ orphans.attestations ∨ a = r.attestation := by
  obtain ⟨receipts', hfile, hsubset⟩ := h.exists_file htracks
  obtain ⟨r', hr', rfl⟩ := (hfile.mem_attestations a).mp ha
  rcases List.mem_append.mp (hsubset hr') with hr' | hr'
  · exact .inl ((h.mem_attestations _).mpr ⟨r', hr', rfl⟩)
  · rw [List.mem_singleton.mp hr']
    exact .inr rfl

/-- If nothing leaves, the attestation waits beside all others, by this receipt or by another. -/
theorem Holds.mem_attestations_file (h : orphans.Holds receipts) {r : Received p}
    (htracks : orphans.tracks r.target = true) (hnone : (orphans.file r).1 = none)
    (a : Attestation p) :
    a ∈ (orphans.file r).2.attestations ↔ a ∈ orphans.attestations ∨ a = r.attestation := by
  refine ⟨h.mem_attestations_of_file htracks, ?_⟩
  rcases h.file htracks with ⟨hold, -, hfile⟩ | ⟨-, -, -, hfile⟩ | ⟨-, -, -, hsome, -⟩ |
    ⟨-, -, _, _, _, -, -, -, -, hsome, -⟩
  · rw [hfile.mem_attestations, h.mem_attestations]
    rintro (hwaits | rfl)
    · exact hwaits
    · exact ⟨r, hold, rfl⟩
  · rw [hfile.mem_attestations, h.mem_attestations]
    rintro (⟨r', hr', rfl⟩ | rfl)
    · exact ⟨r', List.mem_append_left _ hr', rfl⟩
    · exact ⟨r, by simp, rfl⟩
  · cases hnone.symm.trans hsome
  · cases hnone.symm.trans hsome

/-! ## Releasing -/

theorem release_outside (rules : ChainRules p) (orphans : Orphans p) {block : BeaconBlock p}
    (h : orphans.tracks (p.epochAt block.slot) = false) :
    orphans.release rules block = ([], orphans, []) := by
  rw [release, h]
  rfl

theorem release_tracked (rules : ChainRules p) {block : BeaconBlock p}
    (h : orphans.tracks (p.epochAt block.slot) = true) :
    (orphans.release rules block).1 = (orphans.index.evict (rules.blockRoot block)).1 ∧
      (orphans.release rules block).2.1 =
        { orphans with index := (orphans.index.evict (rules.blockRoot block)).2 } := by
  rw [release, h]
  exact ⟨rfl, rfl⟩

theorem release_frame (rules : ChainRules p) (orphans : Orphans p) (block : BeaconBlock p) :
    ∃ rows places size, (orphans.release rules block).2.1 =
      { orphans with index := { orphans.index with rows, places, size } } := by
  cases htracks : orphans.tracks (p.epochAt block.slot) with
  | false => exact ⟨_, _, _, by rw [release_outside rules orphans htracks]⟩
  | true =>
    obtain ⟨rows, places, size, hframe⟩ := orphans.index.evict_frame (rules.blockRoot block)
    rw [release, htracks]
    exact ⟨rows, places, size, congrArg (fun index => { orphans with index }) hframe⟩

@[simp]
theorem tracks_release (rules : ChainRules p) (orphans : Orphans p) (block : BeaconBlock p)
    (epoch : Epoch) : (orphans.release rules block).2.1.tracks epoch = orphans.tracks epoch := by
  obtain ⟨rows, places, size, hframe⟩ := orphans.release_frame rules block
  rw [hframe]
  rfl

/-- A block of the window takes out all receipts for it, and only those. -/
theorem Holds.release (h : orphans.Holds receipts) (rules : ChainRules p) {block : BeaconBlock p}
    (htracks : orphans.tracks (p.epochAt block.slot) = true) :
    (orphans.release rules block).1 = receipts.filter (·.root = rules.blockRoot block) ∧
      (orphans.release rules block).2.1.Holds
        (receipts.filter (·.root ≠ rules.blockRoot block)) := by
  obtain ⟨hanswer, hsimulates⟩ := h.simulates.evict (rules.blockRoot block)
  obtain ⟨hreleased, hrest⟩ := release_tracked rules htracks
  constructor
  · rw [hreleased, hanswer, ArrivalList.evict, listing, List.filter_map, List.map_map]
    exact List.map_id _
  · obtain ⟨rows, places, size, hframe⟩ := orphans.release_frame rules block
    have hafter : Simulates (orphans.release rules block).2.1.index
        ((orphans.listing receipts).evict (rules.blockRoot block)).2 := by
      rw [hrest]
      exact hsimulates
    refine .of_list hafter (h.bounded.filter _ _) (List.filter_map ..) ?_ ?_
    · rw [hframe]
      exact h.baseline_eq
    · intro r hr
      rw [tracks_release]
      exact h.tracks r (List.mem_filter.mp hr).1

theorem Holds.mem_released (h : orphans.Holds receipts) (rules : ChainRules p)
    (block : BeaconBlock p) (a : Attestation p) :
    a ∈ (orphans.release rules block).1.map (·.attestation) ↔ a ∈ orphans.attestations ∧
      orphans.tracks (p.epochAt block.slot) = true ∧
        a.data.beaconBlockRoot = rules.blockRoot block := by
  rw [h.mem_attestations, List.mem_map]
  cases htracks : orphans.tracks (p.epochAt block.slot) with
  | false =>
    rw [release_outside rules orphans htracks]
    simp
  | true =>
    simp only [(h.release rules htracks).1, List.mem_filter, decide_eq_true_eq, true_and]
    constructor
    · rintro ⟨r, ⟨hr, hroot⟩, rfl⟩
      exact ⟨⟨r, hr, rfl⟩, hroot⟩
    · rintro ⟨⟨r, hr, rfl⟩, hroot⟩
      exact ⟨r, ⟨hr, hroot⟩, rfl⟩

theorem Holds.mem_attestations_release (h : orphans.Holds receipts) (rules : ChainRules p)
    (block : BeaconBlock p) (a : Attestation p) :
    a ∈ (orphans.release rules block).2.1.attestations ↔ a ∈ orphans.attestations ∧
      ¬(orphans.tracks (p.epochAt block.slot) = true ∧
        a.data.beaconBlockRoot = rules.blockRoot block) := by
  cases htracks : orphans.tracks (p.epochAt block.slot) with
  | false =>
    rw [release_outside rules orphans htracks]
    simp
  | true =>
    rw [(h.release rules htracks).2.mem_attestations, h.mem_attestations]
    simp only [List.mem_filter, decide_eq_true_eq, true_and]
    constructor
    · rintro ⟨r, ⟨hr, hroot⟩, rfl⟩
      exact ⟨⟨r, hr, rfl⟩, hroot⟩
    · rintro ⟨⟨r, hr, rfl⟩, hroot⟩
      exact ⟨r, ⟨hr, hroot⟩, rfl⟩

theorem Holds.exists_release (h : orphans.Holds receipts) (rules : ChainRules p)
    (block : BeaconBlock p) : ∃ receipts', (orphans.release rules block).2.1.Holds receipts' := by
  cases htracks : orphans.tracks (p.epochAt block.slot) with
  | false =>
    rw [release_outside rules orphans htracks]
    exact ⟨_, h⟩
  | true => exact ⟨_, (h.release rules htracks).2⟩

/-! ## Ticking -/

/-- Where the window starts once the clock has reached `slot`. -/
def baselineAt (orphans : Orphans p) (slot : Slot) : Epoch :=
  match orphans.baseline with
  | none => previousEpoch (p.epochAt slot)
  | some baseline => max baseline (previousEpoch (p.epochAt slot))

theorem tick_eq (orphans : Orphans p) (slot : Slot) : (orphans.tick slot).1 =
    { baseline := some (orphans.baselineAt slot)
      index := (orphans.index.moveBaseline (orphans.baselineAt slot)).2 } := rfl

theorem baseline_le_baselineAt (orphans : Orphans p) (slot : Slot) :
    orphans.baseline.getD 0 ≤ orphans.baselineAt slot := by
  rw [UInt64.le_iff_toNat_le, baselineAt]
  cases orphans.baseline with
  | none => exact Nat.zero_le _
  | some baseline =>
    rw [toNat_max]
    exact Nat.le_max_left _ _

theorem Holds.baseline_le_baselineAt (h : orphans.Holds receipts) (slot : Slot) :
    orphans.index.baseline ≤ orphans.baselineAt slot := by
  rw [h.baseline_eq]
  exact orphans.baseline_le_baselineAt slot

theorem Holds.tick_frame (h : orphans.Holds receipts) (slot : Slot) : ∃ rows places size,
    (orphans.tick slot).1 =
      { baseline := some (orphans.baselineAt slot)
        index := { orphans.index with
          rows, places, size, baseline := orphans.baselineAt slot } } := by
  obtain ⟨rows, places, size, hframe⟩ := orphans.index.moveBaseline_frame (orphans.baselineAt slot)
  rw [max_eq_of_le (h.baseline_le_baselineAt slot)] at hframe
  exact ⟨rows, places, size, by rw [tick_eq, hframe]⟩

/-- A tick drops the receipts before the new start of the window, and only those. -/
theorem Holds.tick (h : orphans.Holds receipts) (slot : Slot) :
    (orphans.tick slot).1.Holds (receipts.filter (orphans.baselineAt slot ≤ ·.target)) := by
  obtain ⟨rows, places, size, hframe⟩ := h.tick_frame slot
  have hsimulates : Simulates (orphans.tick slot).1.index
      ((orphans.listing receipts).moveBaseline (orphans.baselineAt slot)).2 :=
    (h.simulates.moveBaseline _).2
  refine .of_list hsimulates (h.bounded.step (.moveBaseline (orphans.baselineAt slot))) ?_ ?_ ?_
  · rw [ArrivalList.moveBaseline]
    split
    -- The window stays, and all that is tracked is in it.
    · rename_i hbehind
      rw [List.filter_eq_self.mpr]
      · rfl
      · intro r hr
        obtain ⟨-, hle, -⟩ := (orphans.tracks_iff _).mp (h.tracks r hr)
        have hle := UInt64.le_iff_toNat_le.mpr hle
        exact decide_eq_true (UInt64.le_trans hbehind hle)
    · exact List.filter_map ..
  · rw [hframe]
    rfl
  · intro r hr
    obtain ⟨hr, hretained⟩ := List.mem_filter.mp hr
    obtain ⟨-, -, hlt⟩ := (orphans.tracks_iff _).mp (h.tracks r hr)
    have hretained := UInt64.le_iff_toNat_le.mp (of_decide_eq_true hretained)
    have hforward := UInt64.le_iff_toNat_le.mp (h.baseline_le_baselineAt slot)
    -- The end of the window moves forward with its start.
    rw [hframe, tracks_iff]
    refine ⟨rfl, hretained, ?_⟩
    show _ < min ((orphans.baselineAt slot).toNat + orphans.index.tracked.toNat) _
    omega

theorem Holds.mem_attestations_tick (h : orphans.Holds receipts) (slot : Slot)
    (a : Attestation p) :
    a ∈ (orphans.tick slot).1.attestations ↔
      a ∈ orphans.attestations ∧ orphans.baselineAt slot ≤ a.data.target.epoch := by
  rw [(h.tick slot).mem_attestations, h.mem_attestations]
  simp only [List.mem_filter, decide_eq_true_eq]
  constructor
  · rintro ⟨r, ⟨hr, hretained⟩, rfl⟩
    exact ⟨⟨r, hr, rfl⟩, hretained⟩
  · rintro ⟨⟨r, hr, rfl⟩, hretained⟩
    exact ⟨r, ⟨hr, hretained⟩, rfl⟩

end Orphans

end AttestationIntake
