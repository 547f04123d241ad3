import AttestationIntake.Proofs.Intake.Alignment

/-!
Submissions that are refused. There are none once there was a slot, and before it only those whose
block the store does not have. A refusal changes nothing but the timing, so a run goes on as if the
submission had never been made.
-/

namespace AttestationIntake

variable {σ : Type} {p : Preset}

def Tally.untimed (tally : Tally) : Tally := { tally with times := {} }

theorem Tally.untimed_setLength (tally : Tally) (type name : String) (length : Nat) :
    (tally.setLength type name length).untimed = tally.untimed.setLength type name length := rfl

/-- What an event gives back. -/
inductive EventAnswer (σ : Type) where
  /-- With the store as it is after it was asked. -/
  | submitted (result : Except IntakeError Outcome) (store : σ)
  | ticked
  | imported (count : Nat)

/-- What an event gives back, the lines it logs, and the intake that it leaves, without timings. -/
structure Report (σ : Type) (p : Preset) where
  answer : EventAnswer σ
  lines : List LogLine
  after : Intake p

def Report.isRefusal : Report σ p → Bool
  | ⟨.submitted (.error _) _, _, _⟩ => true
  | _ => false

namespace Intake

/-- All of an intake but how its operations were timed. -/
def untimed (intake : Intake p) : Intake p :=
  { intake with tally := intake.tally.map Tally.untimed }

section

variable [BlockStore σ]

def report (rules : ChainRules p) (intake : Intake p) : IntakeEvent σ p → Report σ p
  | .submit store received =>
      let (result, after, store, lines) := intake.submit store received
      ⟨.submitted result store, lines, after.untimed⟩
  | .tick slot =>
      let (after, lines) := intake.tick slot
      ⟨.ticked, lines, after.untimed⟩
  | .importBlock block =>
      let (count, after, lines) := importBlock rules intake block
      ⟨.imported count, lines, after.untimed⟩

/-- The reports of a run, event by event. -/
def reports (rules : ChainRules p) : Intake p → List (IntakeEvent σ p) → List (Report σ p)
  | _, [] => []
  | intake, event :: rest =>
      intake.report rules event :: reports rules (intake.step rules event) rest

/-- The events of a run without the submissions that are refused in it. -/
def accepted (rules : ChainRules p) : Intake p → List (IntakeEvent σ p) → List (IntakeEvent σ p)
  | _, [] => []
  | intake, event :: rest =>
      let later := accepted rules (intake.step rules event) rest
      if (intake.report rules event).isRefusal then later else event :: later

end

/-! ## Timings -/

@[simp]
theorem untimed_countTime (intake : Intake p) (operation : String) :
    (intake.countTime operation).untimed = intake.untimed := by
  obtain ⟨_, _, _ | _, _⟩ := intake <;> rfl

theorem untimed_countOutcome (intake : Intake p) (outcome : Outcome) :
    (intake.countOutcome outcome).untimed = intake.untimed.countOutcome outcome := by
  obtain ⟨_, _, _ | _, _⟩ := intake <;> rfl

theorem untimed_publishLengths (intake : Intake p) :
    intake.publishLengths.untimed = intake.untimed.publishLengths := by
  obtain ⟨_, _, _ | tally, _⟩ := intake
  · rfl
  · simp only [publishLengths, untimed, Option.map_some]
    rw [Tally.untimed_setLength, Tally.untimed_setLength]

@[simp]
theorem untimed_untimed (intake : Intake p) : intake.untimed.untimed = intake.untimed := by
  obtain ⟨_, _, _ | _, _⟩ := intake <;> rfl

theorem addCounted_untimed (intake : Intake p) (a : Attestation p) :
    intake.untimed.addCounted a = (intake.addCounted a).untimed := by
  obtain ⟨_, _, _ | _, _⟩ := intake <;> rfl

variable [BlockStore σ]

theorem route_untimed (intake : Intake p) (store : σ) (r : Received p) :
    intake.untimed.route store r = ((intake.route store r).1, (intake.route store r).2.1.untimed,
      (intake.route store r).2.2) := by
  simp only [route, show intake.untimed.orphans = intake.orphans from rfl]
  split
  · rfl
  · rcases intake.orphans.add (BlockStore.lookup store r.attestation.data.beaconBlockRoot).2 r with
      ⟨_ | _ | _ | _, _⟩ <;> rfl

/-- Timings are counted, but nothing looks at them. -/
theorem report_untimed (rules : ChainRules p) (intake : Intake p) (event : IntakeEvent σ p) :
    intake.untimed.report rules event = intake.report rules event := by
  cases event with
  | submit store r =>
    simp only [report, submit, route_untimed]
    rcases intake.route store r with ⟨_ | outcome, routed, _, _⟩
    · simp only [untimed_countTime, untimed_untimed]
      rfl
    · simp only [untimed_publishLengths, untimed_countOutcome, untimed_countTime, untimed_untimed]
      rfl
  | tick slot =>
    have hmoved := untimed_untimed { intake with
      pool := (intake.pool.tick slot).1, orphans := (intake.orphans.tick slot).1 }
    simp only [report, tick, untimed_publishLengths, untimed_countTime]
    rw [← hmoved]
    rfl
  | importBlock block =>
    have hrest := untimed_untimed { intake with
      orphans := (intake.orphans.release rules block).2.1 }
    simp only [report, importBlock, show intake.untimed.orphans = intake.orphans from rfl]
    split
    · simp only [untimed_countTime, ← addReleased_hom addCounted_untimed]
      rw [← hrest]
      rfl
    · simp only [untimed_publishLengths, untimed_countTime, ← addReleased_hom addCounted_untimed]
      rw [← hrest]
      rfl

theorem after_report (rules : ChainRules p) (intake : Intake p) (event : IntakeEvent σ p) :
    (intake.report rules event).after = (intake.step rules event).untimed := by
  cases event <;> rfl

section

variable {intake intake' : Intake p}

theorem report_congr (h : intake.untimed = intake'.untimed) (rules : ChainRules p)
    (event : IntakeEvent σ p) : intake.report rules event = intake'.report rules event := by
  rw [← report_untimed, h, report_untimed]

theorem step_congr (h : intake.untimed = intake'.untimed) (rules : ChainRules p)
    (event : IntakeEvent σ p) :
    (intake.step rules event).untimed = (intake'.step rules event).untimed := by
  rw [← after_report, report_congr h, after_report]

theorem run_congr (h : intake.untimed = intake'.untimed) (rules : ChainRules p)
    (events : List (IntakeEvent σ p)) :
    (intake.run rules events).untimed = (intake'.run rules events).untimed := by
  induction events generalizing intake intake' with
  | nil => exact h
  | cons event rest ih => exact ih (step_congr h rules event)

theorem reports_congr (h : intake.untimed = intake'.untimed) (rules : ChainRules p)
    (events : List (IntakeEvent σ p)) :
    reports rules intake events = reports rules intake' events := by
  induction events generalizing intake intake' with
  | nil => rfl
  | cons event rest ih => rw [reports, reports, report_congr h, ih (step_congr h rules event)]

end

/-! ## Refusals -/

/-- A submission is refused if there was no slot and the store does not have the block. The store
was asked once. -/
theorem submit_refused {intake : Intake p} {store : σ} {r : Received p}
    (hinit : intake.orphans.isInitialized = false)
    (hunknown : (BlockStore.lookup store r.root).1 = false) :
    intake.submit store r =
      (.error .noSlotYet, intake.countTime "submit", (BlockStore.lookup store r.root).2, []) := by
  rw [Received.root] at hunknown
  simp [submit, route, Orphans.add, hinit, hunknown, log, Received.root]

theorem refused_iff (intake : Intake p) (store : σ) (r : Received p) :
    (∃ error, (intake.submit store r).1 = .error error) ↔
      intake.orphans.isInitialized = false ∧ (BlockStore.lookup store r.root).1 = false := by
  constructor
  · rintro ⟨error, herror⟩
    rcases intake.submit_cases store r with ⟨-, hanswer, -⟩ | ⟨hfinds, hinit, -⟩ |
      ⟨-, -, -, hanswer, -⟩ | ⟨-, -, hanswer, -⟩
    · cases herror.symm.trans hanswer
    · rw [finds, hinit, Bool.false_and, Bool.or_false] at hfinds
      exact ⟨hinit, hfinds⟩
    · cases herror.symm.trans hanswer
    · cases herror.symm.trans hanswer
  · rintro ⟨hinit, hunknown⟩
    exact ⟨_, congrArg Prod.fst (submit_refused hinit hunknown)⟩

theorem isInitialized_step (rules : ChainRules p) (intake : Intake p) (event : IntakeEvent σ p) :
    (intake.step rules event).orphans.isInitialized = true ↔
      intake.orphans.isInitialized = true ∨ ∃ slot, event = .tick slot := by
  obtain ⟨-, ⟨hother, -, hbaseline⟩ | ⟨slot, rfl, -, hbaseline⟩⟩ :=
    intake.step_windows rules event <;> rw [Orphans.isInitialized, hbaseline]
  · constructor
    · exact .inl
    · rintro (hinit | ⟨slot, rfl⟩)
      · exact hinit
      · exact absurd rfl (hother slot)
  · exact ⟨fun _ => .inr ⟨slot, rfl⟩, fun _ => rfl⟩

theorem isInitialized_run (rules : ChainRules p) (intake : Intake p)
    (events : List (IntakeEvent σ p)) :
    (intake.run rules events).orphans.isInitialized = true ↔
      intake.orphans.isInitialized = true ∨ ∃ slot, .tick slot ∈ events := by
  induction events generalizing intake with
  | nil => simp [run]
  | cons event rest ih =>
    rw [show intake.run rules (event :: rest) = (intake.step rules event).run rules rest from rfl,
      ih, isInitialized_step, or_assoc]
    simp only [List.mem_cons, exists_or, eq_comm]

/-- Before the first slot a block releases nothing. -/
theorem importBlock_before_slot (rules : ChainRules p) {intake : Intake p}
    (hinit : intake.orphans.isInitialized = false) (block : BeaconBlock p) :
    importBlock rules intake block = (0, intake.countTime "on_block_imported", []) := by
  have htracks : intake.orphans.tracks (p.epochAt block.slot) = false := by
    rw [Orphans.tracks, hinit, Bool.false_and]
  rw [importBlock, Orphans.release_outside rules intake.orphans htracks]
  rfl

theorem untimed_step_of_refusal {rules : ChainRules p} {intake : Intake p} {event : IntakeEvent σ p}
    (h : (intake.report rules event).isRefusal = true) :
    (intake.step rules event).untimed = intake.untimed := by
  cases event with
  | submit store r =>
    cases hanswer : (intake.submit store r).1 with
    | error error =>
      obtain ⟨hinit, hunknown⟩ := (refused_iff intake store r).mp ⟨error, hanswer⟩
      rw [step, submit_refused hinit hunknown, untimed_countTime]
    | ok outcome =>
      simp only [report, hanswer, Report.isRefusal] at h
      cases h
  | tick slot => cases h
  | importBlock block => cases h

/-! ## Runs -/

/-- Without the submissions that are refused, everything else is reported in the same way. -/
theorem reports_accepted (rules : ChainRules p) (intake : Intake p)
    (events : List (IntakeEvent σ p)) :
    reports rules intake (accepted rules intake events) =
      (reports rules intake events).filter (!·.isRefusal) := by
  induction events generalizing intake with
  | nil => rfl
  | cons event rest ih =>
    rw [accepted, reports]
    by_cases hrefusal : (intake.report rules event).isRefusal = true
    · rw [if_pos hrefusal, List.filter_cons_of_neg (by simpa using hrefusal), ← ih]
      exact reports_congr (untimed_step_of_refusal hrefusal).symm rules _
    · rw [if_neg hrefusal, List.filter_cons_of_pos (by simpa using hrefusal), ← ih, reports]

theorem run_accepted (rules : ChainRules p) (intake : Intake p) (events : List (IntakeEvent σ p)) :
    (intake.run rules (accepted rules intake events)).untimed =
      (intake.run rules events).untimed := by
  induction events generalizing intake with
  | nil => rfl
  | cons event rest ih =>
    rw [accepted]
    by_cases hrefusal : (intake.report rules event).isRefusal = true
    · rw [if_pos hrefusal]
      exact (run_congr (untimed_step_of_refusal hrefusal).symm rules _).trans (ih _)
    · rw [if_neg hrefusal]
      exact ih _

/-- Submissions are refused before the first slot, if the store does not have their block, and never
afterwards. A refusal asks the store once and leaves everything as it was but the timing, and so do
imports before the first slot. So a run without the submissions that are refused in it gives the
same reports of all other events. -/
theorem run_refuses {σ : Type} [BlockStore σ] {p : Preset} (rules : ChainRules p)
    (settings : Settings) (start : Epoch) (tally : Option Tally) (events : List (IntakeEvent σ p)) :
    let first : Intake p := new settings start tally
    let intake := first.run rules events
    (∀ (store : σ) r, (∃ error, (intake.submit store r).1 = .error error) ↔
        (∀ slot, .tick slot ∉ events) ∧
          (BlockStore.lookup store r.attestation.data.beaconBlockRoot).1 = false) ∧
      (∀ (store : σ) r error, (intake.submit store r).1 = .error error →
        intake.submit store r = (.error .noSlotYet, intake.countTime "submit",
          (BlockStore.lookup store r.attestation.data.beaconBlockRoot).2, [])) ∧
      ((∀ slot, .tick slot ∉ events) → ∀ block,
        importBlock rules intake block = (0, intake.countTime "on_block_imported", [])) ∧
      reports rules first (accepted rules first events) =
        (reports rules first events).filter (!·.isRefusal) ∧
      (first.run rules (accepted rules first events)).untimed = intake.untimed := by
  intro first intake
  have hinit : intake.orphans.isInitialized = false ↔ ∀ slot, .tick slot ∉ events := by
    rw [← Bool.not_eq_true, isInitialized_run, not_or, not_exists]
    exact and_iff_right Bool.false_ne_true
  refine ⟨?_, ?_, ?_, reports_accepted rules first events, run_accepted rules first events⟩
  · intro store r
    rw [refused_iff, hinit, Received.root]
  · intro store r error herror
    obtain ⟨hbefore, hunknown⟩ := (refused_iff intake store r).mp ⟨error, herror⟩
    exact submit_refused hbefore hunknown
  · intro hnone
    exact importBlock_before_slot rules (hinit.mpr hnone)

end Intake

end AttestationIntake
