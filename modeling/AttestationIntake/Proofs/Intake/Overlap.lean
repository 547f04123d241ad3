import AttestationIntake.Proofs.Intake.Events

/-!
When an attestation is in the pool and waits among the orphans at once. An import moves what waits
and leaves nothing behind, so it takes a second submission while the first one is at the other
place: the store had the block before the intake was told, or did not have it afterwards, or the
block was outside the window.
-/

namespace AttestationIntake.Intake

variable {p : Preset} {σ : Type} [BlockStore σ]

/-- An attestation is in the pool and waits as well. -/
def Overlaps (intake : Intake p) (a : Attestation p) : Prop :=
  a ∈ intake.pool.attestations ∧ a ∈ intake.orphans.attestations

/-- An event submits an attestation, and the store has its block or has not. -/
def Submits (intake : Intake p) (a : Attestation p) (found : Bool) : IntakeEvent σ p → Prop
  | .submit store r => r.attestation = a ∧ intake.finds store r.root = found
  | _ => False

/-- An event imports the block of an attestation, which is one of the window. -/
def Releases (rules : ChainRules p) (intake : Intake p) (a : Attestation p) :
    IntakeEvent σ p → Prop
  | .importBlock block => intake.orphans.tracks (p.epochAt block.slot) = true ∧
      a.data.beaconBlockRoot = rules.blockRoot block
  | _ => False

/-- An event submits an attestation, which goes to the other place than where it is. -/
def Divides (intake : Intake p) (a : Attestation p) (event : IntakeEvent σ p) : Prop :=
  (intake.Submits a true event ∧ a ∈ intake.orphans.attestations) ∨
    (intake.Submits a false event ∧ a ∈ intake.pool.attestations)

variable {intake : Intake p} {event : IntakeEvent σ p} {a : Attestation p}

/-! ## Steps -/

theorem not_submits_both (h : intake.Submits a true event) : ¬intake.Submits a false event := by
  cases event with
  | submit store r =>
    rintro ⟨-, hunknown⟩
    obtain ⟨-, hfound⟩ := h
    rw [hfound] at hunknown
    cases hunknown
  | tick slot => exact h.elim
  | importBlock block => exact h.elim

theorem not_submits_of_releases {rules : ChainRules p} (h : Releases rules intake a event)
    (found : Bool) : ¬intake.Submits a found event := by
  cases event with
  | submit store r => exact h.elim
  | tick slot => exact h.elim
  | importBlock block => exact id

/-- What is in the pool was there, or was submitted or released to it. -/
theorem WellFormed.mem_pool_step (h : intake.WellFormed) (rules : ChainRules p)
    (ha : a ∈ (intake.step rules event).pool.attestations) :
    a ∈ intake.pool.attestations ∨ intake.Submits a true event ∨
      (Releases rules intake a event ∧ a ∈ intake.orphans.attestations) := by
  rw [(h.step rules event).pool.mem_attestations_iff] at ha
  rw [h.pool.mem_attestations_iff]
  cases event with
  | submit store r =>
    rw [Intake.step] at ha
    rcases intake.submit_cases store r with ⟨hfound, -, hpool, -⟩ | ⟨-, -, -, hpool, -⟩ |
      ⟨-, -, -, -, hpool, -⟩ | ⟨-, -, -, hpool, -⟩ <;> rw [hpool] at ha
    · rcases (intake.pool.mem_targeting_add ..).mp ha with ha | ⟨rfl, -, -⟩
      · exact .inl ha
      · exact .inr (.inl ⟨rfl, hfound⟩)
    · exact .inl ha
    · exact .inl ha
    · exact .inl ha
  | tick slot => exact .inl ((h.pool.mem_targeting_tick slot _ a).mp ha).1
  | importBlock block =>
    rw [Intake.step, (intake.importBlock_eq rules block).1] at ha
    rcases (intake.pool.mem_targeting_run_submits ..).mp ha with ha | ⟨ha, -, -⟩
    · exact .inl ha
    · obtain ⟨receipts, hholds⟩ := h.orphans
      obtain ⟨hwaits, hreleases⟩ := (hholds.mem_released rules block a).mp ha
      exact .inr (.inr ⟨hreleases, hwaits⟩)

/-- What waits has waited and is not released, or was submitted and its block is unknown. -/
theorem WellFormed.mem_orphans_step (h : intake.WellFormed) (rules : ChainRules p)
    (ha : a ∈ (intake.step rules event).orphans.attestations) :
    (a ∈ intake.orphans.attestations ∧ ¬Releases rules intake a event) ∨
      intake.Submits a false event := by
  obtain ⟨receipts, hholds⟩ := h.orphans
  cases event with
  | submit store r =>
    rw [Intake.step] at ha
    rcases intake.submit_cases store r with ⟨-, -, -, horphans⟩ | ⟨-, -, -, -, horphans⟩ |
      ⟨-, -, -, -, -, horphans⟩ | ⟨hunknown, htracks, -, -, horphans⟩ <;> rw [horphans] at ha
    · exact .inl ⟨ha, id⟩
    · exact .inl ⟨ha, id⟩
    · exact .inl ⟨ha, id⟩
    · rcases hholds.mem_attestations_of_file htracks ha with ha | rfl
      · exact .inl ⟨ha, id⟩
      · exact .inr ⟨rfl, hunknown⟩
  | tick slot => exact .inl ⟨((hholds.mem_attestations_tick slot a).mp ha).1, id⟩
  | importBlock block =>
    rw [Intake.step, (intake.importBlock_eq rules block).2] at ha
    exact .inl ((hholds.mem_attestations_release rules block a).mp ha)

theorem WellFormed.overlaps_step (h : intake.WellFormed) (rules : ChainRules p)
    (hoverlaps : (intake.step rules event).Overlaps a) :
    intake.Overlaps a ∨ intake.Divides a event := by
  obtain ⟨hpooled, hwaits⟩ := hoverlaps
  rcases h.mem_pool_step rules hpooled with hpool | hsubmits | ⟨hreleases, -⟩
  · rcases h.mem_orphans_step rules hwaits with ⟨horphans, -⟩ | hsubmits
    · exact .inl ⟨hpool, horphans⟩
    · exact .inr (.inr ⟨hsubmits, hpool⟩)
  · rcases h.mem_orphans_step rules hwaits with ⟨horphans, -⟩ | hsubmits'
    · exact .inr (.inl ⟨hsubmits, horphans⟩)
    · exact absurd hsubmits' (not_submits_both hsubmits)
  -- What is released does not wait any more.
  · rcases h.mem_orphans_step rules hwaits with ⟨-, hkept⟩ | hsubmits
    · exact absurd hreleases hkept
    · exact absurd hsubmits (not_submits_of_releases hreleases false)

/-! ## Runs -/

theorem WellFormed.overlaps_run (h : intake.WellFormed) (rules : ChainRules p)
    (events : List (IntakeEvent σ p)) (hoverlaps : (intake.run rules events).Overlaps a) :
    intake.Overlaps a ∨ ∃ before event after, events = before ++ event :: after ∧
      (intake.run rules before).Divides a event := by
  induction events using List.reverseRecOn with
  | nil => exact .inl hoverlaps
  | append_singleton events event ih =>
    rw [run_snoc] at hoverlaps
    rcases (h.run rules events).overlaps_step rules hoverlaps with hbefore | hdivides
    · rcases ih hbefore with hstart | ⟨before, event', after, rfl, hdivides⟩
      · exact .inl hstart
      · exact .inr ⟨before, event', after ++ [event], by simp, hdivides⟩
    · exact .inr ⟨events, event, [], rfl, hdivides⟩

/-- If an attestation is ever in the pool and waits as well, it was submitted while it was at one
place, and the store sent it to the other. -/
theorem run_overlaps (rules : ChainRules p) (settings : Settings) (start : Epoch)
    (tally : Option Tally) (events : List (IntakeEvent σ p)) (a : Attestation p)
    (h : ((new settings start tally).run rules events).Overlaps a) :
    ∃ before event after, events = before ++ event :: after ∧
      ((new settings start tally).run rules before).Divides a event := by
  rcases (wellFormed_new settings start tally).overlaps_run rules events h with hstart | hdivides
  · obtain ⟨_, hr, -⟩ := ((Orphans.holds_empty ..).mem_attestations a).mp hstart.2
    cases hr
  · exact hdivides

/-- The block is imported, but the store does not have it when the attestation comes again. -/
theorem importBlock_divides :
    let r : Received .minimal := { attestation := { data := { target := { epoch := 10 } } } }
    let events : List (IntakeEvent LaggingStore .minimal) :=
      [.tick 80, .submit {} r, .importBlock { slot := 80 }, .submit {} r]
    ∃ before event after, events = before ++ event :: after ∧
      ((new {} 10 none).run (.rejecting []) before).Divides r.attestation event :=
  run_overlaps (.rejecting []) {} 10 none _ _ ⟨by decide +kernel, by decide +kernel⟩

/-- The block becomes known between two deliveries of one attestation, and nothing is imported. -/
theorem overlaps_of_redelivery :
    let r : Received .minimal := { attestation := { data := { target := { epoch := 10 } } } }
    let store : LaggingStore := {}
    ((new {} 10 none).run (.rejecting [])
      [.tick 80, .submit store r, .submit (store.know .zero) r]).Overlaps r.attestation :=
  ⟨by decide +kernel, by decide +kernel⟩

/-! ## Stores that are in step -/

/-- An event fits what has been imported: the store has just these blocks, and a block that is
imported is one of the window. -/
def InStep (intake : Intake p) (roots : List Root) : IntakeEvent σ p → Prop
  | .submit store r => intake.finds store r.root = true ↔ r.root ∈ roots
  | .tick _ => True
  | .importBlock block => intake.orphans.tracks (p.epochAt block.slot) = true

/-- The imported blocks after an event. -/
def imported (rules : ChainRules p) (roots : List Root) : IntakeEvent σ p → List Root
  | .importBlock block => rules.blockRoot block :: roots
  | _ => roots

/-- All events of a run fit what has been imported before them. -/
def RunsInStep (rules : ChainRules p) : Intake p → List Root → List (IntakeEvent σ p) → Prop
  | _, _, [] => True
  | intake, roots, event :: rest =>
      intake.InStep roots event ∧
        RunsInStep rules (intake.step rules event) (imported rules roots event) rest

/-- The imported blocks part the pool from the orphans. -/
structure Parted (intake : Intake p) (roots : List Root) : Prop where
  pool : ∀ a ∈ intake.pool.attestations, a.data.beaconBlockRoot ∈ roots
  orphans : ∀ a ∈ intake.orphans.attestations, a.data.beaconBlockRoot ∉ roots

theorem Parted.not_overlaps {roots : List Root} (h : intake.Parted roots) : ¬intake.Overlaps a :=
  fun hoverlaps => h.orphans a hoverlaps.2 (h.pool a hoverlaps.1)

theorem parted_new (settings : Settings) (start : Epoch) (tally : Option Tally) :
    (new settings start tally : Intake p).Parted [] where
  pool := by
    intro a ha
    rw [(wellFormed_new settings start tally).pool.mem_attestations_iff] at ha
    simp [new, Pool.empty, Pool.targeting] at ha
  orphans := by simp

theorem Parted.step {roots : List Root} (h : intake.Parted roots) (hwf : intake.WellFormed)
    (rules : ChainRules p) (hevent : intake.InStep roots event) :
    (intake.step rules event).Parted (imported rules roots event) where
  pool := by
    intro a ha
    rcases hwf.mem_pool_step rules ha with hbefore | hsubmits | ⟨hreleases, -⟩
    · have hroot := h.pool a hbefore
      cases event with
      | submit store r => exact hroot
      | tick slot => exact hroot
      | importBlock block => exact List.mem_cons_of_mem _ hroot
    · cases event with
      | submit store r =>
        obtain ⟨rfl, hfound⟩ := hsubmits
        exact hevent.mp hfound
      | tick slot => exact hsubmits.elim
      | importBlock block => exact hsubmits.elim
    · cases event with
      | submit store r => exact hreleases.elim
      | tick slot => exact hreleases.elim
      | importBlock block =>
        rw [hreleases.2]
        exact List.mem_cons_self
  orphans := by
    intro a ha
    rcases hwf.mem_orphans_step rules ha with ⟨hbefore, hkept⟩ | hsubmits
    · have hroot := h.orphans a hbefore
      cases event with
      | submit store r => exact hroot
      | tick slot => exact hroot
      | importBlock block =>
        intro hmem
        rcases List.mem_cons.mp hmem with hblock | hmem
        · exact hkept ⟨hevent, hblock⟩
        · exact hroot hmem
    · cases event with
      | submit store r =>
        obtain ⟨rfl, hunknown⟩ := hsubmits
        intro hmem
        rw [hevent.mpr hmem] at hunknown
        cases hunknown
      | tick slot => exact hsubmits.elim
      | importBlock block => exact hsubmits.elim

theorem WellFormed.not_overlaps_run (h : intake.WellFormed) {roots : List Root}
    (hparted : intake.Parted roots) (rules : ChainRules p) {events : List (IntakeEvent σ p)}
    (hevents : RunsInStep rules intake roots events) (a : Attestation p) :
    ¬(intake.run rules events).Overlaps a := by
  induction events generalizing intake roots with
  | nil => exact hparted.not_overlaps
  | cons event rest ih =>
    obtain ⟨hevent, hrest⟩ := hevents
    exact ih (h.step rules event) (hparted.step h rules hevent) hrest

/-- A store that knows a block from its import on, and no sooner, keeps pool and orphans apart. -/
theorem not_overlaps_of_runsInStep (rules : ChainRules p) (settings : Settings) (start : Epoch)
    (tally : Option Tally) {events : List (IntakeEvent σ p)}
    (h : RunsInStep rules (new settings start tally) [] events) (a : Attestation p) :
    ¬((new settings start tally).run rules events).Overlaps a :=
  (wellFormed_new settings start tally).not_overlaps_run (parted_new settings start tally) rules h a

end AttestationIntake.Intake
