import AttestationIntake.Proofs.EpochIndex.Composition
import AttestationIntake.Proofs.Intake.Events

/-!
Ticks in a row. The clock may tell slots late, twice or in any order, and what is pruned is pruned
in parts. Two ticks always come to one tick of the later slot, so many come to one of the latest.
-/

namespace AttestationIntake

variable {σ : Type} {p : Preset}

/-! ## Pools -/

namespace Pool

variable {pool : Pool p}

theorem WellFormed.tick_tick (h : pool.WellFormed) (first second : Slot) :
    ((pool.tick first).1.tick second).1 = (pool.tick (max first second)).1 := by
  obtain ⟨_, hfirst⟩ := pool.tick_frame first
  obtain ⟨_, hsecond⟩ := (pool.tick first).1.tick_frame second
  obtain ⟨_, honce⟩ := pool.tick_frame (max first second)
  have hhistoric : ((pool.tick first).1.tick second).1.historic =
      (pool.tick (max first second)).1.historic := by
    rw [hsecond, honce, hfirst]
  have hcurrent : ((pool.tick first).1.tick second).1.currentEpoch =
      (pool.tick (max first second)).1.currentEpoch := by
    rw [hsecond, honce, hfirst, p.epochAt_max, ← max_max]
  have hthreshold : ((pool.tick first).1.tick second).1.threshold =
      (pool.tick (max first second)).1.threshold := by
    rw [threshold, threshold, hhistoric, hcurrent]
  apply ((h.tick first).tick second).ext (h.tick _) hhistoric hcurrent
  intro epoch a
  rw [(h.tick first).mem_targeting_tick, h.mem_targeting_tick, h.mem_targeting_tick, hthreshold]
  have hforward := (pool.tick first).1.threshold_le_tick second
  rw [hthreshold] at hforward
  constructor
  · rintro ⟨⟨ha, -⟩, hretained⟩
    exact ⟨ha, hretained⟩
  -- What is retained in the end was retained all along: the threshold only moves forward.
  · rintro ⟨ha, hretained⟩
    exact ⟨⟨ha, UInt64.le_trans hforward hretained⟩, hretained⟩

theorem WellFormed.run_ticks (h : pool.WellFormed) (first : Slot) (rest : List Slot) :
    pool.run ((first :: rest).map .tick) = (pool.tick (rest.foldl max first)).1 := by
  induction rest generalizing first with
  | nil => rfl
  | cons second rest ih =>
    show ((pool.tick first).1.tick second).1.run (rest.map .tick) = _
    rw [h.tick_tick]
    exact ih (max first second)

end Pool

/-! ## Orphans -/

namespace Orphans

variable {orphans : Orphans p} {receipts : List (Received p)}

theorem baselineAt_tick (orphans : Orphans p) (first second : Slot) :
    (orphans.tick first).1.baselineAt second =
      max (orphans.baselineAt first) (previousEpoch (p.epochAt second)) := rfl

theorem baselineAt_max (orphans : Orphans p) (first second : Slot) :
    orphans.baselineAt (max first second) =
      max (orphans.baselineAt first) (previousEpoch (p.epochAt second)) := by
  rw [baselineAt, baselineAt, p.epochAt_max, previousEpoch_max]
  cases orphans.baseline with
  | none => rfl
  | some baseline => exact (max_max ..).symm

theorem Holds.tick_tick (h : orphans.Holds receipts) (first second : Slot) :
    ((orphans.tick first).1.tick second).1 = (orphans.tick (max first second)).1 := by
  obtain ⟨numbered, hrep, -⟩ := h.simulates.arrivals
  have hmax : max (orphans.baselineAt first) (orphans.baselineAt (max first second)) =
      orphans.baselineAt (max first second) := by
    rw [baselineAt_max, ← max_max, max_eq_of_le (UInt64.le_refl _)]
  rw [tick_eq, tick_eq orphans (max first second), baselineAt_tick, ← baselineAt_max, tick_eq,
    hrep.moveBaseline_moveBaseline, hmax]

theorem Holds.run_ticks [BlockStore σ] (h : orphans.Holds receipts) (rules : ChainRules p)
    (first : Slot) (rest : List Slot) :
    orphans.run rules ((first :: rest).map (.tick : Slot → OrphanEvent σ p)) =
      (orphans.tick (rest.foldl max first)).1 := by
  induction rest generalizing first with
  | nil => rfl
  | cons second rest ih =>
    show ((orphans.tick first).1.tick second).1.run rules (rest.map .tick) = _
    rw [h.tick_tick]
    exact ih (max first second)

end Orphans

/-! ## Intakes -/

namespace Intake

variable [BlockStore σ]

/-- Ticks reach pool and orphans apart from each other. -/
theorem run_ticks_eq (rules : ChainRules p) (intake : Intake p) (slots : List Slot) :
    (intake.run rules (slots.map (.tick : Slot → IntakeEvent σ p))).pool =
        intake.pool.run (slots.map .tick) ∧
      (intake.run rules (slots.map (.tick : Slot → IntakeEvent σ p))).orphans =
        intake.orphans.run rules (slots.map (.tick : Slot → OrphanEvent σ p)) := by
  induction slots generalizing intake with
  | nil => exact ⟨rfl, rfl⟩
  | cons slot rest ih => exact ih (intake.tick slot).1

/-- After any ticks, in whatever order, with whatever gaps and repetitions, pool and orphans are as
after one tick of the latest slot among them. -/
theorem run_ticks_eq_tick {σ : Type} [BlockStore σ] {p : Preset} (rules : ChainRules p)
    (settings : Settings) (start : Epoch) (tally : Option Tally) (events : List (IntakeEvent σ p))
    {slots : List Slot} {latest : Slot} (hmem : latest ∈ slots)
    (hlatest : ∀ slot ∈ slots, slot ≤ latest) :
    let intake := (new settings start tally).run rules events
    let ticked := intake.run rules (slots.map (.tick : Slot → IntakeEvent σ p))
    ticked.pool = (intake.tick latest).1.pool ∧
      ticked.orphans = (intake.tick latest).1.orphans := by
  intro intake ticked
  have hwf : intake.WellFormed := (wellFormed_new settings start tally).run rules events
  obtain ⟨receipts, hholds⟩ := hwf.orphans
  have hmax := List.max?_eq_some_iff.mpr ⟨hmem, hlatest⟩
  obtain ⟨hpool, horphans⟩ := run_ticks_eq (σ := σ) rules intake slots
  cases slots with
  | nil => cases hmem
  | cons first rest =>
    rw [List.max?_cons'] at hmax
    cases hmax
    rw [hwf.pool.run_ticks] at hpool
    rw [hholds.run_ticks] at horphans
    exact ⟨hpool, horphans⟩

/-- The clock runs ahead and is set back twice. -/
theorem run_ticks_eq_tick_of_jumps :
    let r : Received .minimal := { attestation := { data := { target := { epoch := 10 } } } }
    let events : List (IntakeEvent LaggingStore .minimal) := [.tick 80, .submit {} r]
    let slots : List Slot := [88, 72, 104, 0, 104]
    let intake := (new {} 10 none).run (.rejecting []) events
    let ticked := intake.run (.rejecting [])
      (slots.map (.tick : Slot → IntakeEvent LaggingStore .minimal))
    (104 ∈ slots ∧ ∀ slot ∈ slots, slot ≤ 104) ∧
      ticked.pool = (intake.tick 104).1.pool ∧
      ticked.orphans = (intake.tick 104).1.orphans := by
  intro r events slots
  have hmem : 104 ∈ slots := by simp [slots]
  have hlatest : ∀ slot ∈ slots, slot ≤ 104 := by simp [slots]
  exact ⟨⟨hmem, hlatest⟩, run_ticks_eq_tick (.rejecting []) {} 10 none events hmem hlatest⟩

end Intake

end AttestationIntake
