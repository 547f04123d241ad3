import AttestationIntake.Proofs.Intake.Events
import AttestationIntake.Proofs.Orphans.Alike

/-!
The windows of pool and orphans. The pool starts in an epoch of its own and the orphans with the
first slot; both only move forward with the clock. Once the clock has reached the epoch in which the
pool started, orphans wait from the epoch before the current one on, so a pool that retains this one
takes in all that they release.
-/

namespace AttestationIntake

variable {σ : Type} {p : Preset}

theorem previousEpoch_mono {a b : Epoch} (h : a ≤ b) : previousEpoch a ≤ previousEpoch b :=
  subCapped_mono h 1

namespace Intake

open Orphans (SameWindow)

/-- The window of the orphans starts one epoch before the current epoch of the pool. -/
def Aligned (intake : Intake p) : Prop :=
  intake.orphans.baseline = some (previousEpoch intake.pool.currentEpoch)

/-- The clock has not reached `start`, the epoch in which the pool started, and the window of the
orphans is no further than it will be then. -/
structure Behind (intake : Intake p) (start : Epoch) : Prop where
  currentEpoch_eq : intake.pool.currentEpoch = start
  baseline_le : ∀ baseline, intake.orphans.baseline = some baseline → baseline ≤ previousEpoch start

theorem behind_new (settings : Settings) (start : Epoch) (tally : Option Tally) :
    (new settings start tally : Intake p).Behind start where
  currentEpoch_eq := rfl
  baseline_le := by
    intro baseline hbaseline
    cases hbaseline

variable [BlockStore σ] {intake : Intake p}

/-! ## Steps -/

/-- The window of the orphans stays as it is until the clock moves on. -/
theorem sameWindow_step (rules : ChainRules p) (intake : Intake p) {event : IntakeEvent σ p}
    (h : ∀ slot, event ≠ .tick slot) :
    SameWindow intake.orphans (intake.step rules event).orphans := by
  cases event with
  | submit store r =>
    rw [step]
    rcases intake.submit_cases store r with ⟨-, -, -, horphans⟩ | ⟨-, -, -, -, horphans⟩ |
      ⟨-, -, -, -, -, horphans⟩ | ⟨-, -, -, -, horphans⟩ <;> rw [horphans]
    · exact .refl _
    · exact .refl _
    · exact .refl _
    · exact .of_file _ r
  | tick slot => exact absurd rfl (h slot)
  | importBlock block =>
    rw [step, (importBlock_eq ..).2]
    exact .of_release rules _ block

/-- And so does that of the pool. -/
theorem pool_step_frame (rules : ChainRules p) (intake : Intake p) {event : IntakeEvent σ p}
    (h : ∀ slot, event ≠ .tick slot) :
    ∃ buckets, (intake.step rules event).pool = { intake.pool with buckets } := by
  cases event with
  | submit store r =>
    rw [step]
    rcases intake.submit_cases store r with ⟨-, -, hpool, -⟩ | ⟨-, -, -, hpool, -⟩ |
      ⟨-, -, -, -, hpool, -⟩ | ⟨-, -, -, hpool, -⟩ <;> rw [hpool]
    · exact intake.pool.add_frame r.attestation
    · exact ⟨_, rfl⟩
    · exact ⟨_, rfl⟩
    · exact ⟨_, rfl⟩
  | tick slot => exact absurd rfl (h slot)
  | importBlock block =>
    rw [step, (importBlock_eq ..).1]
    exact intake.pool.run_submits_frame _

/-- Only ticks move the windows. -/
theorem step_windows (rules : ChainRules p) (intake : Intake p) (event : IntakeEvent σ p) :
    (intake.step rules event).pool.historic = intake.pool.historic ∧
      (((∀ slot, event ≠ .tick slot) ∧
          (intake.step rules event).pool.currentEpoch = intake.pool.currentEpoch ∧
          (intake.step rules event).orphans.baseline = intake.orphans.baseline) ∨
        ∃ slot, event = .tick slot ∧
          (intake.step rules event).pool.currentEpoch =
            max intake.pool.currentEpoch (p.epochAt slot) ∧
          (intake.step rules event).orphans.baseline = some (intake.orphans.baselineAt slot)) := by
  by_cases htick : ∃ slot, event = .tick slot
  · obtain ⟨slot, rfl⟩ := htick
    obtain ⟨buckets, hframe⟩ := intake.pool.tick_frame slot
    rw [step, show (intake.tick slot).1.pool = (intake.pool.tick slot).1 from rfl, hframe]
    exact ⟨rfl, .inr ⟨slot, rfl, rfl, rfl⟩⟩
  · rw [not_exists] at htick
    obtain ⟨buckets, hframe⟩ := intake.pool_step_frame rules htick
    have hwindow := intake.sameWindow_step rules htick
    rw [hframe]
    exact ⟨rfl, .inl ⟨htick, rfl, hwindow.baseline_eq.symm⟩⟩

theorem Aligned.step (h : intake.Aligned) (rules : ChainRules p) (event : IntakeEvent σ p) :
    (intake.step rules event).Aligned := by
  rw [Aligned] at h ⊢
  obtain ⟨-, ⟨-, hcurrent, hbaseline⟩ | ⟨slot, -, hcurrent, hbaseline⟩⟩ :=
    intake.step_windows rules event <;> rw [hcurrent, hbaseline]
  · exact h
  · rw [Orphans.baselineAt, h, previousEpoch_max]

/-- A tick that reaches the epoch in which the pool started brings the windows in line. -/
theorem Behind.tick {start : Epoch} (h : intake.Behind start) (rules : ChainRules p) {slot : Slot}
    (hreached : start ≤ p.epochAt slot) :
    (intake.step rules (.tick slot : IntakeEvent σ p)).Aligned := by
  obtain ⟨-, ⟨hother, -⟩ | ⟨_, heq, hcurrent, hbaseline⟩⟩ :=
    intake.step_windows rules (.tick slot : IntakeEvent σ p)
  · exact absurd rfl (hother slot)
  · cases heq
    rw [Aligned, hcurrent, hbaseline, h.currentEpoch_eq, max_eq_of_le hreached, Orphans.baselineAt]
    cases hold : intake.orphans.baseline with
    | none => rfl
    | some baseline =>
      have hle := UInt64.le_trans (h.baseline_le baseline hold) (previousEpoch_mono hreached)
      exact congrArg some (max_eq_of_le hle)

theorem Behind.step {start : Epoch} (h : intake.Behind start) (rules : ChainRules p)
    (event : IntakeEvent σ p) :
    (intake.step rules event).Aligned ∨ (intake.step rules event).Behind start := by
  obtain ⟨-, ⟨-, hcurrent, hbaseline⟩ | ⟨slot, rfl, hcurrent, hbaseline⟩⟩ :=
    intake.step_windows rules event
  · exact .inr ⟨hcurrent.trans h.currentEpoch_eq, hbaseline.symm ▸ h.baseline_le⟩
  · by_cases hreached : start ≤ p.epochAt slot
    · exact .inl (h.tick rules hreached)
    · have hbefore := UInt64.le_of_lt (UInt64.not_le.mp hreached)
      rw [h.currentEpoch_eq, max_eq_of_ge hbefore] at hcurrent
      refine .inr ⟨hcurrent, ?_⟩
      intro baseline hnew
      cases hbaseline.symm.trans hnew
      rw [Orphans.baselineAt]
      cases hold : intake.orphans.baseline with
      | none => exact previousEpoch_mono hbefore
      | some baseline =>
        have hle := UInt64.le_iff_toNat_le.mp (h.baseline_le baseline hold)
        have hle' := UInt64.le_iff_toNat_le.mp (previousEpoch_mono hbefore)
        rw [UInt64.le_iff_toNat_le, toNat_max]
        exact Nat.max_le.mpr ⟨hle, hle'⟩

/-! ## Released attestations -/

/-- When its turn comes each attestation that a block releases is pooled or a duplicate, and it is
in the pool when all have been admitted. -/
def AdmitsReleased (rules : ChainRules p) (intake : Intake p) (block : BeaconBlock p) : Prop :=
  ∀ before r after, (intake.orphans.release rules block).1 = before ++ r :: after →
    let admitted :=
      addReleased { intake with orphans := (intake.orphans.release rules block).2.1 } before
    ((admitted.addToPool r.attestation).1 = .pooled ∨
        (admitted.addToPool r.attestation).1 = .duplicate) ∧
      r.attestation ∈ (importBlock rules intake block).2.1.pool.targeting r.target

/-- A pool that retains the previous epoch retains all that the orphans keep. -/
theorem Aligned.threshold_le (h : intake.Aligned) (hretains : 1 ≤ intake.pool.historic)
    {receipts : List (Received p)} (hholds : intake.orphans.Holds receipts) {r : Received p}
    (hr : r ∈ receipts) : intake.pool.threshold ≤ r.target := by
  obtain ⟨-, hstart, -⟩ := (intake.orphans.tracks_iff _).mp (hholds.tracks r hr)
  have hretains := UInt64.le_iff_toNat_le.mp hretains
  rw [hholds.baseline_eq, h, Option.getD_some, previousEpoch, toNat_subCapped] at hstart
  rw [UInt64.le_iff_toNat_le, Pool.threshold, toNat_subCapped]
  change 1 ≤ intake.pool.historic.toNat at hretains
  change intake.pool.currentEpoch.toNat - 1 ≤ r.target.toNat at hstart
  omega

theorem admitsReleased_of_threshold_le (rules : ChainRules p) {block : BeaconBlock p}
    (h : ∀ r ∈ (intake.orphans.release rules block).1, intake.pool.threshold ≤ r.target) :
    AdmitsReleased rules intake block := by
  intro before r after hsplit
  have hretained := h r (by simp [hsplit])
  constructor
  · obtain ⟨hpool, -⟩ := addReleased_eq
      { intake with orphans := (intake.orphans.release rules block).2.1 } before
    obtain ⟨buckets, hframe⟩ :=
      intake.pool.run_submits_frame (before.map (·.attestation))
    have hsame := hpool.trans hframe
    rcases (addReleased { intake with orphans := (intake.orphans.release rules block).2.1 }
      before).pool.add_cases r.attestation with ⟨hstale, -⟩ | ⟨-, -, hadd⟩ | ⟨-, -, hadd⟩
    · rw [hsame] at hstale
      exact absurd hstale (UInt64.not_lt.mpr hretained)
    · exact .inr (congrArg Prod.fst hadd)
    · exact .inl (congrArg Prod.fst hadd)
  · rw [(importBlock_eq ..).1, Pool.mem_targeting_run_submits]
    exact .inr ⟨List.mem_map_of_mem (by simp [hsplit]), rfl, hretained⟩

/-! ## Runs -/

theorem run_historic (rules : ChainRules p) (intake : Intake p) (events : List (IntakeEvent σ p)) :
    (intake.run rules events).pool.historic = intake.pool.historic := by
  induction events generalizing intake with
  | nil => rfl
  | cons event events ih => exact (ih _).trans (intake.step_windows rules event).1

theorem sameWindow_run (rules : ChainRules p) (intake : Intake p) {events : List (IntakeEvent σ p)}
    (h : ∀ slot, .tick slot ∉ events) :
    SameWindow intake.orphans (intake.run rules events).orphans := by
  induction events generalizing intake with
  | nil => exact .refl _
  | cons event rest ih =>
    have hevent : ∀ slot, event ≠ .tick slot := by
      rintro slot rfl
      exact h slot List.mem_cons_self
    have hrest : ∀ slot, .tick slot ∉ rest := fun slot hmem => h slot (List.mem_cons_of_mem _ hmem)
    exact (sameWindow_step rules intake hevent).trans (ih _ hrest)

theorem run_aligned_or_behind (rules : ChainRules p) (settings : Settings) (start : Epoch)
    (tally : Option Tally) (events : List (IntakeEvent σ p)) :
    ((new settings start tally : Intake p).run rules events).Aligned ∨
      ((new settings start tally : Intake p).run rules events).Behind start := by
  induction events using List.reverseRecOn with
  | nil => exact .inr (behind_new settings start tally)
  | append_singleton events event ih =>
    rw [run_snoc]
    rcases ih with haligned | hbehind
    · exact .inl (haligned.step rules event)
    · exact hbehind.step rules event

theorem aligned_run_of_reached (rules : ChainRules p) (settings : Settings) (start : Epoch)
    (tally : Option Tally) {events : List (IntakeEvent σ p)}
    (hreached : ∃ slot, .tick slot ∈ events ∧ start ≤ p.epochAt slot) :
    ((new settings start tally : Intake p).run rules events).Aligned := by
  obtain ⟨slot, hmem, hreached⟩ := hreached
  induction events using List.reverseRecOn with
  | nil => cases hmem
  | append_singleton events event ih =>
    rw [run_snoc]
    rcases List.mem_append.mp hmem with hmem | hmem
    · exact (ih hmem).step rules event
    · cases List.mem_singleton.mp hmem
      rcases run_aligned_or_behind rules settings start tally events with haligned | hbehind
      · exact haligned.step rules _
      · exact hbehind.tick rules hreached

/-- Once the clock has reached the epoch in which the pool started, the window of the orphans starts
one epoch before the current one. A pool that retains this epoch holds nothing that waits for stale,
and takes in all that is released. -/
theorem run_aligned {σ : Type} [BlockStore σ] {p : Preset} (rules : ChainRules p)
    (settings : Settings) (start : Epoch) (tally : Option Tally) (events : List (IntakeEvent σ p))
    (hretains : 1 ≤ settings.historicEpochs)
    (hreached : ∃ slot, .tick slot ∈ events ∧ start ≤ p.epochAt slot) :
    let intake := (new settings start tally).run rules events
    intake.orphans.baseline = some (previousEpoch intake.pool.currentEpoch) ∧
      (∀ r ∈ intake.orphans.index.values,
        intake.pool.threshold ≤ r.attestation.data.target.epoch) ∧
      ∀ block, AdmitsReleased rules intake block := by
  have haligned := aligned_run_of_reached rules settings start tally hreached
  have hhistoric := run_historic rules (new settings start tally) events
  obtain ⟨receipts, hholds⟩ :=
    ((wellFormed_new settings start tally).run rules events).orphans
  have hkept : ∀ r ∈ receipts, _ := fun r hr =>
    haligned.threshold_le (hhistoric.symm ▸ hretains) hholds hr
  refine ⟨haligned, ?_, ?_⟩
  · intro r hr
    exact hkept r ((hholds.mem_values r).mp hr)
  · intro block
    apply admitsReleased_of_threshold_le
    intro r hr
    -- What is released has waited, by this receipt or by another.
    have hreleased := (hholds.mem_released rules block r.attestation).mp (List.mem_map_of_mem hr)
    obtain ⟨r', hr', hsame⟩ := (hholds.mem_attestations _).mp hreleased.1
    rw [Received.target, ← hsame]
    exact hkept r' hr'

/-- The pool starts ahead of the clock. What is filed before the clock has caught up is released by
its block, and then it is in the pool. -/
theorem run_aligned_of_late_start :
    let r : Received .minimal := { attestation := { data := { target := { epoch := 9 } } } }
    let events : List (IntakeEvent LaggingStore .minimal) :=
      [.tick 64, .submit {} r, .tick 72, .tick 80]
    let block : BeaconBlock .minimal := { slot := 72 }
    let intake := (new {} 10 none).run (.rejecting []) events
    ((1 : UInt64) ≤ ({} : Settings).historicEpochs ∧
        ∃ slot, IntakeEvent.tick slot ∈ events ∧ 10 ≤ Preset.minimal.epochAt slot) ∧
      intake.orphans.baseline = some (previousEpoch intake.pool.currentEpoch) ∧
      (∀ r ∈ intake.orphans.index.values,
        intake.pool.threshold ≤ r.attestation.data.target.epoch) ∧
      (∀ block, AdmitsReleased (.rejecting []) intake block) ∧
      (intake.orphans.release (.rejecting []) block).1 = [r] ∧
      r.attestation ∈ (importBlock (.rejecting []) intake block).2.1.pool.targeting 9 := by
  intro r events block intake
  have hreached : ∃ slot, IntakeEvent.tick slot ∈ events ∧ 10 ≤ Preset.minimal.epochAt slot :=
    ⟨80, by simp [events], by decide⟩
  obtain ⟨hbaseline, hkept, hadmits⟩ :
      _ ∧ _ ∧ ∀ block, AdmitsReleased (.rejecting []) intake block :=
    run_aligned (.rejecting []) {} 10 none events (by decide) hreached
  have hreleased : (intake.orphans.release (.rejecting []) block).1 = [r] := by decide +kernel
  have hpooled := (hadmits block [] r [] hreleased).2
  exact ⟨⟨by decide, hreached⟩, hbaseline, hkept, hadmits, hreleased, hpooled⟩

end Intake

end AttestationIntake
