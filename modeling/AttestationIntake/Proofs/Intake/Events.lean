import AttestationIntake.Intake
import AttestationIntake.Proofs.Orphans.Window
import AttestationIntake.Proofs.Pool.ClosedForm

/-!
What the events of an intake do to its pool and to its orphans. Each event is one change of a pool
and of orphans that is known already, or none. Tally and shown counts follow them and decide
nothing.
-/

namespace AttestationIntake

variable {σ : Type} {p : Preset}

/-- What an intake is told. Each attestation comes with the store as it is at that moment. -/
inductive IntakeEvent (σ : Type) (p : Preset) where
  | submit (store : σ) (received : Received p)
  | tick (slot : Slot)
  | importBlock (block : BeaconBlock p)

namespace Intake

variable [BlockStore σ]

/-! ## Submissions -/

/-- Whether the store has the block when it is asked, or when the orphans ask once more. -/
def finds (intake : Intake p) (store : σ) (root : Root) : Bool :=
  (BlockStore.lookup store root).1 || (intake.orphans.isInitialized &&
    (BlockStore.lookup (BlockStore.lookup store root).2 root).1)

/-- All that can become of an attestation, of the pool and of the orphans. -/
theorem submit_cases (intake : Intake p) (store : σ) (r : Received p) :
    (intake.finds store r.root = true ∧
        (intake.submit store r).1 = .ok (intake.pool.add r.attestation).1 ∧
        (intake.submit store r).2.1.pool = (intake.pool.add r.attestation).2 ∧
        (intake.submit store r).2.1.orphans = intake.orphans) ∨
      (intake.finds store r.root = false ∧ intake.orphans.isInitialized = false ∧
        (intake.submit store r).1 = .error .noSlotYet ∧
        (intake.submit store r).2.1.pool = intake.pool ∧
        (intake.submit store r).2.1.orphans = intake.orphans) ∨
      (intake.finds store r.root = false ∧ intake.orphans.isInitialized = true ∧
        intake.orphans.tracks r.target = false ∧
        (intake.submit store r).1 = .ok .untracked ∧
        (intake.submit store r).2.1.pool = intake.pool ∧
        (intake.submit store r).2.1.orphans = intake.orphans) ∨
      (intake.finds store r.root = false ∧ intake.orphans.tracks r.target = true ∧
        (intake.submit store r).1 = .ok .orphaned ∧
        (intake.submit store r).2.1.pool = intake.pool ∧
        (intake.submit store r).2.1.orphans = (intake.orphans.file r).2) := by
  have hsubmit : (intake.submit store r).1 = (intake.route store r).1 ∧
      (intake.submit store r).2.1.pool = (intake.route store r).2.1.pool ∧
      (intake.submit store r).2.1.orphans = (intake.route store r).2.1.orphans := by
    rw [submit]
    rcases intake.route store r with ⟨_ | _, _, _, _⟩ <;> exact ⟨rfl, rfl, rfl⟩
  obtain ⟨hanswer, hpool, horphans⟩ := hsubmit
  rw [hanswer, hpool, horphans]
  rw [finds, route, show r.attestation.data.beaconBlockRoot = r.root from rfl]
  dsimp only
  cases hknown : (BlockStore.lookup store r.root).1 with
  | true => exact .inl ⟨rfl, rfl, rfl, rfl⟩
  | false =>
    simp only [Bool.false_eq_true, if_false, Bool.false_or]
    rcases intake.orphans.add_cases (BlockStore.lookup store r.root).2 r with
      ⟨hinit, hadd⟩ | ⟨hinit, hagain, hadd⟩ | ⟨hinit, hagain, htracks, hadd⟩ |
      ⟨hagain, htracks, hadd⟩ <;> rw [hadd]
    · exact .inr (.inl ⟨by rw [hinit]; rfl, hinit, rfl, rfl, rfl⟩)
    · exact .inl ⟨by rw [hinit, hagain]; rfl, rfl, rfl, rfl⟩
    · exact .inr (.inr (.inl ⟨by rw [hagain, Bool.and_false], hinit, htracks, rfl, rfl, rfl⟩))
    · exact .inr (.inr (.inr ⟨by rw [hagain, Bool.and_false], htracks, rfl, rfl, rfl⟩))

section

variable {intake : Intake p} {store : σ} {r : Received p}

theorem finds_of_known {root : Root} (hknown : (BlockStore.lookup store root).1 = true)
    (intake : Intake p) : intake.finds store root = true := by
  rw [finds, hknown, Bool.true_or]

theorem submit_of_finds (hfinds : intake.finds store r.root = true) :
    (intake.submit store r).1 = .ok (intake.pool.add r.attestation).1 ∧
      (intake.submit store r).2.1.pool = (intake.pool.add r.attestation).2 ∧
      (intake.submit store r).2.1.orphans = intake.orphans := by
  rcases intake.submit_cases store r with ⟨-, hresult⟩ | ⟨hother, -⟩ | ⟨hother, -⟩ | ⟨hother, -⟩
  · exact hresult
  all_goals cases hfinds.symm.trans hother

theorem submit_before_slot (hfinds : intake.finds store r.root = false)
    (hinit : intake.orphans.isInitialized = false) :
    (intake.submit store r).1 = .error .noSlotYet ∧
      (intake.submit store r).2.1.pool = intake.pool ∧
      (intake.submit store r).2.1.orphans = intake.orphans := by
  have htracks : intake.orphans.tracks r.target = false := by rw [Orphans.tracks, hinit]; rfl
  rcases intake.submit_cases store r with ⟨hother, -⟩ | ⟨-, -, hresult⟩ | ⟨-, hother, -⟩ |
    ⟨-, hother, -⟩
  · cases hfinds.symm.trans hother
  · exact hresult
  · cases hinit.symm.trans hother
  · cases htracks.symm.trans hother

theorem submit_outside (hfinds : intake.finds store r.root = false)
    (hinit : intake.orphans.isInitialized = true)
    (htracks : intake.orphans.tracks r.target = false) :
    (intake.submit store r).1 = .ok .untracked ∧
      (intake.submit store r).2.1.pool = intake.pool ∧
      (intake.submit store r).2.1.orphans = intake.orphans := by
  rcases intake.submit_cases store r with ⟨hother, -⟩ | ⟨-, hother, -⟩ | ⟨-, -, -, hresult⟩ |
    ⟨-, hother, -⟩
  · cases hfinds.symm.trans hother
  · cases hinit.symm.trans hother
  · exact hresult
  · cases htracks.symm.trans hother

theorem submit_of_tracks (hfinds : intake.finds store r.root = false)
    (htracks : intake.orphans.tracks r.target = true) :
    (intake.submit store r).1 = .ok .orphaned ∧
      (intake.submit store r).2.1.pool = intake.pool ∧
      (intake.submit store r).2.1.orphans = (intake.orphans.file r).2 := by
  have hinit := ((intake.orphans.tracks_iff _).mp htracks).1
  rcases intake.submit_cases store r with ⟨hother, -⟩ | ⟨-, hother, -⟩ | ⟨-, -, hother, -⟩ |
    ⟨-, -, hresult⟩
  · cases hfinds.symm.trans hother
  · cases hinit.symm.trans hother
  · cases htracks.symm.trans hother
  · exact hresult

end

/-! ## Imports -/

/-- Admits one attestation, as an import does with each that it releases. -/
def addCounted (intake : Intake p) (attestation : Attestation p) : Intake p :=
  (intake.addToPool attestation).2.countOutcome (intake.addToPool attestation).1

theorem addReleased_eq_foldl (intake : Intake p) (released : List (Received p)) :
    addReleased intake released = (released.map (·.attestation)).foldl addCounted intake := by
  rw [List.foldl_map]
  rfl

/-- What can be exchanged with the admission of one attestation can be with that of many. -/
theorem addReleased_hom {change : Intake p → Intake p}
    (h : ∀ intake a, (change intake).addCounted a = change (intake.addCounted a))
    (intake : Intake p) (released : List (Received p)) :
    addReleased (change intake) released = change (addReleased intake released) := by
  rw [addReleased_eq_foldl, addReleased_eq_foldl]
  exact List.foldl_hom change h

theorem addReleased_eq (intake : Intake p) (released : List (Received p)) :
    (addReleased intake released).pool =
        intake.pool.run ((released.map (·.attestation)).map .submit) ∧
      (addReleased intake released).orphans = intake.orphans := by
  induction released generalizing intake with
  | nil => exact ⟨rfl, rfl⟩
  | cons first rest ih => exact ih _

/-- The pool takes in what the orphans release. -/
theorem importBlock_eq (rules : ChainRules p) (intake : Intake p) (block : BeaconBlock p) :
    (importBlock rules intake block).2.1.pool = intake.pool.run
        (((intake.orphans.release rules block).1.map (·.attestation)).map .submit) ∧
      (importBlock rules intake block).2.1.orphans =
        (intake.orphans.release rules block).2.1 := by
  obtain ⟨hpool, horphans⟩ := addReleased_eq
    { intake with orphans := (intake.orphans.release rules block).2.1 }
    (intake.orphans.release rules block).1
  unfold importBlock
  dsimp only
  cases (intake.orphans.release rules block).1.isEmpty <;> exact ⟨hpool, horphans⟩

/-! ## Runs -/

def step (rules : ChainRules p) (intake : Intake p) : IntakeEvent σ p → Intake p
  | .submit store received => (intake.submit store received).2.1
  | .tick slot => (intake.tick slot).1
  | .importBlock block => (importBlock rules intake block).2.1

def run (rules : ChainRules p) (intake : Intake p) (events : List (IntakeEvent σ p)) : Intake p :=
  events.foldl (step rules) intake

theorem run_append (rules : ChainRules p) (intake : Intake p)
    (events events' : List (IntakeEvent σ p)) :
    intake.run rules (events ++ events') = (intake.run rules events).run rules events' :=
  List.foldl_append

theorem run_snoc (rules : ChainRules p) (intake : Intake p) (events : List (IntakeEvent σ p))
    (event : IntakeEvent σ p) :
    intake.run rules (events ++ [event]) = (intake.run rules events).step rules event := by
  rw [run, List.foldl_append]
  rfl

/-- The invariants of pool and orphans. -/
structure WellFormed (intake : Intake p) : Prop where
  pool : intake.pool.WellFormed
  orphans : ∃ receipts, intake.orphans.Holds receipts

theorem wellFormed_new (settings : Settings) (start : Epoch) (tally : Option Tally) :
    (new settings start tally : Intake p).WellFormed where
  pool := Pool.wellFormed_empty ..
  orphans := ⟨[], Orphans.holds_empty ..⟩

theorem WellFormed.step {intake : Intake p} (h : intake.WellFormed) (rules : ChainRules p)
    (event : IntakeEvent σ p) : (intake.step rules event).WellFormed := by
  obtain ⟨receipts, hholds⟩ := h.orphans
  cases event with
  | submit store r =>
    rcases intake.submit_cases store r with ⟨-, -, hpool, horphans⟩ | ⟨-, -, -, hpool, horphans⟩ |
      ⟨-, -, -, -, hpool, horphans⟩ | ⟨-, htracks, -, hpool, horphans⟩
    · exact ⟨hpool ▸ h.pool.add r.attestation, horphans ▸ h.orphans⟩
    · exact ⟨hpool ▸ h.pool, horphans ▸ h.orphans⟩
    · exact ⟨hpool ▸ h.pool, horphans ▸ h.orphans⟩
    · obtain ⟨receipts', hholds', -⟩ := hholds.exists_file htracks
      exact ⟨hpool ▸ h.pool, horphans ▸ ⟨receipts', hholds'⟩⟩
  | tick slot => exact ⟨h.pool.tick slot, _, hholds.tick slot⟩
  | importBlock block =>
    obtain ⟨hpool, horphans⟩ := intake.importBlock_eq rules block
    exact ⟨hpool ▸ h.pool.run _, horphans ▸ hholds.exists_release rules block⟩

theorem WellFormed.run {intake : Intake p} (h : intake.WellFormed) (rules : ChainRules p)
    (events : List (IntakeEvent σ p)) : (intake.run rules events).WellFormed := by
  induction events generalizing intake with
  | nil => exact h
  | cons event events ih => exact ih (h.step rules event)

end Intake

end AttestationIntake
