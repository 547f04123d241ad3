import AttestationIntake.Proofs.Intake.Alignment
import AttestationIntake.Proofs.Orphans.Entries

/-!
All that a submission does. The store is asked once or twice, and if it has the block the pool
decides, or else the window and the room among the orphans. One attestation comes in at the most,
and one receipt leaves at the most; clocks and windows stay as they are.
-/

namespace AttestationIntake

variable {σ : Type} {p : Preset}

/-! ## Orphans -/

namespace Orphans

/-- The receipts that wait, in the order in which they were stored. -/
def stored (orphans : Orphans p) : List (Received p) := orphans.entries.map (·.receipt)

/-- Of these receipts the first of the lowest epoch has left. -/
def LosesOldest (receipts rest : List (Received p)) : Prop :=
  ∃ before oldest after, receipts = before ++ oldest :: after ∧ rest = before ++ after ∧
    (∀ b ∈ before, oldest.target < b.target) ∧ ∀ a ∈ after, oldest.target ≤ a.target

variable {orphans : Orphans p} {receipts : List (Received p)} {r : Received p}

theorem Holds.stored_eq (h : orphans.Holds receipts) : orphans.stored = receipts :=
  h.receipts_entries

/-- A receipt that waits is not stored again. -/
theorem Holds.file_of_mem (h : orphans.Holds receipts) (hmem : r ∈ receipts) :
    (orphans.file r).2 = orphans := by
  rw [Orphans.file, EpochIndex.add, if_pos ((h.contains_iff r).mpr hmem)]

/-- A receipt that is stored already changes nothing. A new one stands behind all others, and if
there was no room the oldest of all leaves, which may be the new one. -/
theorem Holds.stored_file (h : orphans.Holds receipts) (htracks : orphans.tracks r.target = true) :
    (r ∈ orphans.stored → (orphans.file r).2 = orphans) ∧
      (r ∉ orphans.stored →
        if orphans.size < orphans.index.capacity.toNat then
          (orphans.file r).2.stored = orphans.stored ++ [r]
        else LosesOldest (orphans.stored ++ [r]) (orphans.file r).2.stored) := by
  rw [h.stored_eq, h.size_eq]
  refine ⟨h.file_of_mem, fun hnew => ?_⟩
  rcases h.file_split htracks with ⟨hmem, -⟩ | ⟨-, hroom, -, hfile⟩ |
    ⟨-, hfull, before, oldest, after, hsplit, hbefore, hafter, -, hfile⟩
  · exact absurd hmem hnew
  · rw [if_pos hroom]
    exact hfile.stored_eq
  · rw [if_neg (Nat.not_lt.mpr (Nat.le_of_eq hfull.symm))]
    exact ⟨before, oldest, after, hsplit, hfile.stored_eq, hbefore, hafter⟩

end Orphans

/-! ## Submissions -/

namespace Intake

/-- The pool alone decides, and gains the attestation if and only if it answers `pooled`. -/
def Admits (before after : Intake p) (r : Received p) (answer : Except IntakeError Outcome) :
    Prop :=
  answer = .ok (if r.target < before.pool.threshold then .stale
      else if r.attestation ∈ before.pool.targeting r.target then .duplicate else .pooled) ∧
    (∀ epoch a, a ∈ after.pool.targeting epoch ↔ a ∈ before.pool.targeting epoch ∨
      answer = .ok .pooled ∧ a = r.attestation ∧ epoch = r.target) ∧
    (answer ≠ .ok .pooled → after.pool = before.pool) ∧
    after.orphans = before.orphans

/-- The pool stays as it is, and the receipt is stored if its target epoch is in the window. -/
def Files (before after : Intake p) (r : Received p) (answer : Except IntakeError Outcome) :
    Prop :=
  after.pool = before.pool ∧
    if before.orphans.index.window.contains r.target then
      answer = .ok .orphaned ∧
        (r ∈ before.orphans.stored → after.orphans = before.orphans) ∧
        (r ∉ before.orphans.stored →
          if before.orphans.size < before.orphans.index.capacity.toNat then
            after.orphans.stored = before.orphans.stored ++ [r]
          else Orphans.LosesOldest (before.orphans.stored ++ [r]) after.orphans.stored)
    else answer = .ok .untracked ∧ after.orphans = before.orphans

variable [BlockStore σ] {intake : Intake p} {store : σ} {r : Received p}

theorem admits_of_finds (hfinds : intake.finds store r.root = true) :
    intake.Admits (intake.submit store r).2.1 r (intake.submit store r).1 := by
  obtain ⟨hanswer, hpool, horphans⟩ := submit_of_finds hfinds
  have hcases := intake.pool.add_cases r.attestation
  rw [← Received.target] at hcases
  rw [Admits, hanswer, hpool]
  rcases hcases with ⟨hstale, hadd⟩ | ⟨hretained, hmem, hadd⟩ | ⟨hretained, hnew, hadd⟩ <;>
    rw [hadd]
  · rw [if_pos hstale]
    exact ⟨rfl, by simp, fun _ => rfl, horphans⟩
  · rw [if_neg (UInt64.not_lt.mpr hretained), if_pos hmem]
    exact ⟨rfl, by simp, fun _ => rfl, horphans⟩
  · rw [if_neg (UInt64.not_lt.mpr hretained), if_neg hnew]
    refine ⟨rfl, ?_, fun hother => absurd rfl hother, horphans⟩
    intro epoch a
    rw [Pool.mem_targeting_put, and_iff_right rfl, @eq_comm _ epoch]
    rfl

theorem WellFormed.files (h : intake.WellFormed) (hfinds : intake.finds store r.root = false)
    (hinit : intake.orphans.isInitialized = true) :
    intake.Files (intake.submit store r).2.1 r (intake.submit store r).1 := by
  obtain ⟨receipts, hholds⟩ := h.orphans
  have hwindow : intake.orphans.index.window.contains r.target =
      intake.orphans.tracks r.target := by
    rw [Orphans.tracks, hinit, Bool.true_and]
  rw [Files, hwindow]
  cases htracks : intake.orphans.tracks r.target with
  | false =>
    obtain ⟨hanswer, hpool, horphans⟩ := submit_outside hfinds hinit htracks
    exact ⟨hpool, hanswer, horphans⟩
  | true =>
    obtain ⟨hanswer, hpool, horphans⟩ := submit_of_tracks hfinds htracks
    rw [horphans]
    exact ⟨hpool, hanswer, hholds.stored_file htracks⟩

/-- How the store is left: it is asked a second time only by orphans that know a slot. -/
theorem submit_store (intake : Intake p) (store : σ) (r : Received p) :
    (intake.submit store r).2.2.1 =
      if (BlockStore.lookup store r.root).1 || !intake.orphans.isInitialized then
        (BlockStore.lookup store r.root).2
      else (BlockStore.lookup (BlockStore.lookup store r.root).2 r.root).2 := by
  have hsubmit : (intake.submit store r).2.2.1 = (intake.route store r).2.2.1 := by
    rw [submit]
    rcases intake.route store r with ⟨_ | _, _, _, _⟩ <;> rfl
  rw [hsubmit, route, show r.attestation.data.beaconBlockRoot = r.root from rfl]
  dsimp only
  cases hknown : (BlockStore.lookup store r.root).1 with
  | true => rfl
  | false =>
    rcases intake.orphans.add_cases (BlockStore.lookup store r.root).2 r with
      ⟨hinit, hadd⟩ | ⟨hinit, -, hadd⟩ | ⟨hinit, -, -, hadd⟩ | ⟨-, htracks, hadd⟩ <;>
      rw [hadd]
    · rw [hinit]
      rfl
    · rw [hinit]
      rfl
    · rw [hinit]
      rfl
    · rw [((intake.orphans.tracks_iff _).mp htracks).1]
      rfl

/-- Along every run, a submission goes to the pool if the store finds its block, when it is asked or
when the orphans ask once more, and else to the orphans. There are no other changes. -/
theorem run_submit_effect {σ : Type} [BlockStore σ] {p : Preset} (rules : ChainRules p)
    (settings : Settings) (start : Epoch) (tally : Option Tally) (events : List (IntakeEvent σ p))
    (store : σ) (r : Received p) :
    let before : Intake p := (new settings start tally).run rules events
    let (answer, after, left, _) := before.submit store r
    let (known, asked) := BlockStore.lookup store r.attestation.data.beaconBlockRoot
    let (arrived, again) := BlockStore.lookup asked r.attestation.data.beaconBlockRoot
    let initialized := before.orphans.isInitialized
    (if known || (initialized && arrived) then before.Admits after r answer
      else if initialized then before.Files after r answer
      else answer = .error .noSlotYet ∧ after.pool = before.pool ∧
        after.orphans = before.orphans) ∧
      after.pool.currentEpoch = before.pool.currentEpoch ∧
      after.pool.historic = before.pool.historic ∧
      after.orphans.baseline = before.orphans.baseline ∧
      after.orphans.index.window = before.orphans.index.window ∧
      left = if known || !initialized then asked else again := by
  intro before
  have hwf : before.WellFormed := (wellFormed_new settings start tally).run rules events
  -- A submission is no tick, so it moves no window.
  have hnotick : ∀ slot, (.submit store r : IntakeEvent σ p) ≠ .tick slot := by simp
  obtain ⟨buckets, hpool⟩ := before.pool_step_frame rules hnotick
  have hwindow := before.sameWindow_step rules hnotick
  rw [step] at hpool hwindow
  refine ⟨?_, ?_, ?_, hwindow.baseline_eq.symm, ?_, before.submit_store store r⟩
  · show if before.finds store r.root then _ else _
    cases hfinds : before.finds store r.root with
    | true => exact admits_of_finds hfinds
    | false =>
      show if before.orphans.isInitialized then _ else _
      cases hinit : before.orphans.isInitialized with
      | true => exact hwf.files hfinds hinit
      | false => exact submit_before_slot hfinds hinit
  · show (before.submit store r).2.1.pool.currentEpoch = _
    rw [hpool]
  · show (before.submit store r).2.1.pool.historic = _
    rw [hpool]
  · show (before.submit store r).2.1.orphans.index.window = _
    rw [EpochIndex.window, ← hwindow.start_eq, ← hwindow.tracked_eq]
    rfl

end Intake

end AttestationIntake
