import AttestationIntake.Proofs.Orphans.Contents
import Mathlib.Data.List.Induction

/-!
The window of orphans along a run. Where it starts is kept twice, by the orphans and by their index,
and the index leaves it to its user to keep out what does not belong. Whatever the order of slots,
both starts are one epoch before the greatest epoch that the clock has reached, and nothing is filed
outside.
-/

namespace AttestationIntake

variable {σ : Type} {p : Preset}

/-- What orphans are told. Each attestation comes with the store as it is at that moment. -/
inductive OrphanEvent (σ : Type) (p : Preset) where
  | add (store : σ) (received : Received p)
  | release (block : BeaconBlock p)
  | tick (slot : Slot)

namespace OrphanEvent

/-- The epoch that the clock has reached. -/
def epoch? : OrphanEvent σ p → Option Epoch
  | tick slot => some (p.epochAt slot)
  | _ => none

/-- The greatest epoch that the clock has reached, if there was a slot. -/
def latestEpoch? (events : List (OrphanEvent σ p)) : Option Epoch :=
  (events.filterMap epoch?).max?

theorem latestEpoch?_snoc (events : List (OrphanEvent σ p)) (event : OrphanEvent σ p) :
    latestEpoch? (events ++ [event]) =
      match event.epoch? with
      | none => latestEpoch? events
      | some epoch => some ((latestEpoch? events).elim epoch (max · epoch)) := by
  rw [latestEpoch?, latestEpoch?, List.filterMap_append]
  cases hepoch : event.epoch? with
  | none => simp [hepoch]
  | some epoch =>
    rw [List.filterMap_cons_some hepoch, List.filterMap_nil]
    cases events.filterMap epoch? with
    | nil => rfl
    | cons first rest => simp [List.max?]

end OrphanEvent

theorem previousEpoch_max (a b : Epoch) :
    previousEpoch (max a b) = max (previousEpoch a) (previousEpoch b) := by
  rw [← UInt64.toNat_inj, toNat_max, previousEpoch, previousEpoch, previousEpoch, toNat_subCapped,
    toNat_subCapped, toNat_subCapped, toNat_max]
  omega

namespace Orphans

open OrphanEvent (latestEpoch?)

variable [BlockStore σ]

def step (rules : ChainRules p) (orphans : Orphans p) : OrphanEvent σ p → Orphans p
  | .add store received => (orphans.add store received).2.1
  | .release block => (orphans.release rules block).2.1
  | .tick slot => (orphans.tick slot).1

def run (rules : ChainRules p) (orphans : Orphans p) (events : List (OrphanEvent σ p)) :
    Orphans p :=
  events.foldl (step rules) orphans

theorem run_append (rules : ChainRules p) (orphans : Orphans p)
    (events more : List (OrphanEvent σ p)) :
    orphans.run rules (events ++ more) = (orphans.run rules events).run rules more :=
  List.foldl_append

/-! ## Steps -/

/-- An attestation that is added is filed, or nothing happens. -/
theorem step_add_cases (rules : ChainRules p) (orphans : Orphans p) (store : σ) (r : Received p) :
    orphans.step rules (.add store r) = orphans ∨
      (orphans.tracks r.target = true ∧
        orphans.step rules (.add store r) = (orphans.file r).2) := by
  rcases orphans.add_cases store r with ⟨-, hadd⟩ | ⟨-, -, hadd⟩ | ⟨-, -, -, hadd⟩ |
    ⟨-, htracks, hadd⟩ <;> rw [step, hadd]
  · exact .inl rfl
  · exact .inl rfl
  · exact .inl rfl
  · exact .inr ⟨htracks, rfl⟩

theorem Holds.step {orphans : Orphans p} {receipts : List (Received p)} (h : orphans.Holds receipts)
    (rules : ChainRules p) (event : OrphanEvent σ p) :
    ∃ receipts', (orphans.step rules event).Holds receipts' := by
  cases event with
  | add store r =>
    rcases orphans.step_add_cases rules store r with hadd | ⟨htracks, hadd⟩ <;> rw [hadd]
    · exact ⟨_, h⟩
    · obtain ⟨receipts', h', -⟩ := h.exists_file htracks
      exact ⟨receipts', h'⟩
  | release block => exact h.exists_release rules block
  | tick slot => exact ⟨_, h.tick slot⟩

theorem Holds.run {orphans : Orphans p} {receipts : List (Received p)} (h : orphans.Holds receipts)
    (rules : ChainRules p) (events : List (OrphanEvent σ p)) :
    ∃ receipts', (orphans.run rules events).Holds receipts' := by
  induction events generalizing orphans receipts with
  | nil => exact ⟨receipts, h⟩
  | cons event events ih =>
    obtain ⟨receipts', h'⟩ := h.step rules event
    exact ih h'

/-- The bounds of the index stay as they were set. -/
theorem step_bounds (rules : ChainRules p) (orphans : Orphans p) (event : OrphanEvent σ p) :
    (orphans.step rules event).index.tracked = orphans.index.tracked ∧
      (orphans.step rules event).index.capacity = orphans.index.capacity := by
  cases event with
  | add store r =>
    rcases orphans.step_add_cases rules store r with hadd | ⟨-, hadd⟩ <;> rw [hadd]
    · exact ⟨rfl, rfl⟩
    · obtain ⟨rows, places, nextNumber, size, hframe⟩ := orphans.file_frame r
      rw [hframe]
      exact ⟨rfl, rfl⟩
  | release block =>
    obtain ⟨rows, places, size, hframe⟩ := orphans.release_frame rules block
    rw [step, hframe]
    exact ⟨rfl, rfl⟩
  | tick slot =>
    obtain ⟨rows, places, size, hframe⟩ :=
      orphans.index.moveBaseline_frame (orphans.baselineAt slot)
    rw [step, tick_eq, hframe]
    exact ⟨rfl, rfl⟩

theorem step_baseline (rules : ChainRules p) (orphans : Orphans p) (event : OrphanEvent σ p) :
    (orphans.step rules event).baseline =
      match event.epoch? with
      | none => orphans.baseline
      | some epoch =>
          some (orphans.baseline.elim (previousEpoch epoch) (max · (previousEpoch epoch))) := by
  cases event with
  | add store r =>
    rcases orphans.step_add_cases rules store r with hadd | ⟨-, hadd⟩ <;> rw [hadd]
    · rfl
    · obtain ⟨rows, places, nextNumber, size, hframe⟩ := orphans.file_frame r
      rw [hframe]
      rfl
  | release block =>
    obtain ⟨rows, places, size, hframe⟩ := orphans.release_frame rules block
    rw [step, hframe]
    rfl
  | tick slot =>
    rw [step, tick_eq, baselineAt]
    cases orphans.baseline <;> rfl

/-! ## Runs -/

theorem run_bounds (rules : ChainRules p) (orphans : Orphans p) (events : List (OrphanEvent σ p)) :
    (orphans.run rules events).index.tracked = orphans.index.tracked ∧
      (orphans.run rules events).index.capacity = orphans.index.capacity := by
  induction events generalizing orphans with
  | nil => exact ⟨rfl, rfl⟩
  | cons event events ih =>
    obtain ⟨htracked, hcapacity⟩ := orphans.step_bounds rules event
    obtain ⟨htracked', hcapacity'⟩ := ih (orphans.step rules event)
    exact ⟨htracked'.trans htracked, hcapacity'.trans hcapacity⟩

/-- The window starts one epoch before the greatest epoch that the clock has reached. -/
theorem run_baseline (rules : ChainRules p) (lookahead : UInt64) (capacity : Capacity)
    (events : List (OrphanEvent σ p)) :
    ((empty lookahead capacity : Orphans p).run rules events).baseline =
      (latestEpoch? events).map previousEpoch := by
  induction events using List.reverseRecOn with
  | nil => rfl
  | append_singleton events event ih =>
    rw [run_append, OrphanEvent.latestEpoch?_snoc]
    show (step rules _ event).baseline = _
    rw [step_baseline, ih]
    cases event.epoch? with
    | none => rfl
    | some epoch =>
      cases latestEpoch? events with
      | none => rfl
      | some latest => exact congrArg some (previousEpoch_max latest epoch).symm

theorem step_before_slot (rules : ChainRules p) {orphans : Orphans p} {event : OrphanEvent σ p}
    (hbaseline : orphans.baseline = none) (hevent : event.epoch? = none) :
    orphans.step rules event = orphans := by
  have hoff := not_tracks_of_baseline_eq_none hbaseline
  cases event with
  | add store r =>
    rcases orphans.step_add_cases rules store r with hadd | ⟨htracks, -⟩
    · exact hadd
    · rw [hoff] at htracks
      cases htracks
  | release block => rw [step, release_outside rules orphans (hoff _)]
  | tick slot => cases hevent

theorem run_baseline_le (rules : ChainRules p) {orphans : Orphans p} {baseline : Epoch}
    (events : List (OrphanEvent σ p)) (h : orphans.baseline = some baseline) :
    ∃ baseline', baseline ≤ baseline' ∧ (orphans.run rules events).baseline = some baseline' := by
  induction events generalizing orphans baseline with
  | nil => exact ⟨baseline, UInt64.le_refl _, h⟩
  | cons event events ih =>
    have hstep := orphans.step_baseline rules event
    rw [h] at hstep
    cases hepoch : event.epoch? with
    | none =>
      rw [hepoch] at hstep
      exact ih hstep
    | some epoch =>
      rw [hepoch] at hstep
      obtain ⟨baseline', hle, hrun⟩ := ih hstep
      have hmax : baseline ≤ max baseline (previousEpoch epoch) := by
        rw [UInt64.le_iff_toNat_le, toNat_max]
        exact Nat.le_max_left _ _
      exact ⟨baseline', UInt64.le_trans hmax hle, hrun⟩

/-- Without a slot nothing is kept, and nothing changes. -/
theorem run_before_slot (rules : ChainRules p) (lookahead : UInt64) (capacity : Capacity)
    {events : List (OrphanEvent σ p)} (h : latestEpoch? events = none) :
    (empty lookahead capacity : Orphans p).run rules events = empty lookahead capacity := by
  induction events using List.reverseRecOn with
  | nil => rfl
  | append_singleton events event ih =>
    rw [OrphanEvent.latestEpoch?_snoc] at h
    cases hevent : event.epoch? with
    | none =>
      rw [hevent] at h
      rw [run_append, ih h]
      exact step_before_slot rules rfl hevent
    | some epoch =>
      rw [hevent] at h
      cases h

/-- The window of orphans whose clock has reached `latest`, and that all of them are filed in it.
Words are read as numbers, so no sum is cut off but at the end of the window. -/
structure Windowed (orphans : Orphans p) (lookahead : UInt64) (capacity : Capacity)
    (latest : Epoch) : Prop where
  baseline_eq : orphans.baseline.map (·.toNat) = some (latest.toNat - 1)
  index_baseline_eq : orphans.index.baseline.toNat = latest.toNat - 1
  tracks_iff : ∀ epoch, orphans.tracks epoch = true ↔ latest.toNat - 1 ≤ epoch.toNat ∧
    epoch.toNat < min (latest.toNat - 1 + lookahead.toNat + 2) (UInt64.size - 1)
  row_filed : ∀ epoch number root received,
    orphans.index.rows.find? epoch number = some (root, received) →
      epoch = received.attestation.data.target.epoch ∧
        root = received.attestation.data.beaconBlockRoot ∧ orphans.tracks epoch = true
  place_filed : ∀ root number epoch, orphans.index.places.find? root number = some epoch →
    ∃ received, orphans.index.rows.find? epoch number = some (root, received)
  size_eq : orphans.size = orphans.index.values.length
  size_le : orphans.size ≤ capacity.toNat

theorem windowed_run (rules : ChainRules p) (lookahead : UInt64) (capacity : Capacity)
    {events : List (OrphanEvent σ p)} {latest : Epoch} (h : latestEpoch? events = some latest) :
    ((empty lookahead capacity : Orphans p).run rules events).Windowed lookahead capacity
      latest := by
  obtain ⟨receipts, hholds⟩ := (holds_empty lookahead capacity).run rules events
  obtain ⟨htracked, hcapacity⟩ := (empty lookahead capacity : Orphans p).run_bounds rules events
  have hbaseline := run_baseline rules lookahead capacity events
  rw [h] at hbaseline
  generalize (empty lookahead capacity : Orphans p).run rules events = orphans at *
  have hstart : (previousEpoch latest).toNat = latest.toNat - 1 := toNat_subCapped latest 1
  have hindex : orphans.index.baseline.toNat = latest.toNat - 1 := by
    rw [hholds.baseline_eq, hbaseline]
    exact hstart
  exact {
    baseline_eq := by
      rw [hbaseline]
      exact congrArg some hstart
    index_baseline_eq := hindex
    tracks_iff := by
      intro epoch
      have hinitialized : orphans.isInitialized = true := by
        rw [isInitialized, hbaseline]
        rfl
      have hlength : orphans.index.tracked.toNat = min (lookahead.toNat + 2) (UInt64.size - 1) := by
        rw [htracked]
        exact toNat_addCapped lookahead 2
      rw [Orphans.tracks_iff, hinitialized, hindex, hlength, eq_self, true_and]
      omega
    row_filed := by
      intro epoch number root r hrow
      obtain ⟨hmem, rfl, rfl, -⟩ := hholds.of_mem_rows hrow
      exact ⟨rfl, rfl, hholds.tracks r hmem⟩
    place_filed := fun _ _ _ => hholds.of_mem_places
    size_eq := by rw [hholds.size_eq, hholds.values_eq, List.length_mergeSort]
    size_le := by
      rw [← show orphans.index.capacity = capacity from hcapacity]
      exact hholds.size_le
  }

/-- Before the first slot there is nothing; from then on the window is where the greatest epoch of
all slots puts it, all that is kept is filed in it, and it never moves backward. -/
theorem run_windowed {σ : Type} [BlockStore σ] {p : Preset} (rules : ChainRules p)
    (lookahead : UInt64) (capacity : Capacity) (events : List (OrphanEvent σ p)) :
    (match latestEpoch? events with
      | none => (empty lookahead capacity : Orphans p).run rules events = empty lookahead capacity ∧
          ((empty lookahead capacity : Orphans p).run rules events).size = 0 ∧
          ((empty lookahead capacity : Orphans p).run rules events).baseline = none ∧
          ∀ epoch, ((empty lookahead capacity : Orphans p).run rules events).tracks epoch = false
      | some latest =>
          ((empty lookahead capacity : Orphans p).run rules events).Windowed lookahead capacity
            latest) ∧
      ∀ more baseline,
        ((empty lookahead capacity : Orphans p).run rules events).baseline = some baseline →
        ∃ baseline', baseline ≤ baseline' ∧
          ((empty lookahead capacity : Orphans p).run rules (events ++ more)).baseline =
            some baseline' := by
  constructor
  · cases hlatest : latestEpoch? events with
    | none =>
      have hrun := run_before_slot rules lookahead capacity hlatest
      exact ⟨hrun, by rw [hrun]; rfl, by rw [hrun]; rfl, fun epoch => by rw [hrun]; rfl⟩
    | some latest => exact windowed_run rules lookahead capacity hlatest
  · intro more baseline hbaseline
    rw [run_append]
    exact run_baseline_le rules more hbaseline

end Orphans

end AttestationIntake
