import AttestationIntake.Proofs.Intake.ImportOrder
import AttestationIntake.Proofs.Intake.Imports
import AttestationIntake.Proofs.Intake.Metadata
import AttestationIntake.Proofs.Intake.Outcome
import AttestationIntake.Proofs.Intake.Submissions
import AttestationIntake.Proofs.Intake.Ticks

/-!
Events that are delivered twice in a row. The second delivery changes neither pool nor orphans, each
for a reason of its own: the pool knows an attestation again, and so do the orphans, unless it was
turned away for want of room, and then it is turned away again. What was released is gone, and a
window does not move to where it is.
-/

namespace AttestationIntake

variable {σ : Type} {p : Preset}

/-- What becomes of an attestation that comes again at once. -/
def Outcome.repeated : Outcome → Outcome
  | .pooled => .duplicate
  | outcome => outcome

theorem Pool.add_again (pool : Pool p) (a : Attestation p) :
    (pool.add a).2.add a = ((pool.add a).1.repeated, (pool.add a).2) := by
  rcases pool.add_cases a with ⟨-, hadd⟩ | ⟨-, -, hadd⟩ | ⟨hretained, -, hadd⟩
  · rw [hadd]
    exact hadd
  · rw [hadd]
    exact hadd
  · have hpooled : a ∈ (pool.put a).targeting a.data.target.epoch :=
      (mem_targeting_put ..).mpr (.inr ⟨rfl, rfl⟩)
    rw [hadd]
    rcases (pool.put a).add_cases a with ⟨hstale, -⟩ | ⟨-, -, hagain⟩ | ⟨-, hnew, -⟩
    · exact absurd hstale (UInt64.not_lt.mpr hretained)
    · exact hagain
    · exact absurd hpooled hnew

/-! ## Orphans -/

namespace Orphans

variable {orphans : Orphans p} {receipts : List (Received p)} {r : Received p}

theorem Holds.file_of_turnsAway (h : orphans.Holds receipts)
    (htracks : orphans.tracks r.target = true) (haway : orphans.TurnsAway r) :
    (orphans.file r).2.Holds receipts := by
  obtain ⟨hfull, hlater⟩ := (h.turnsAway_iff r).mp haway
  rcases h.file htracks with ⟨-, -, hfile⟩ | ⟨-, hroom, -⟩ | ⟨-, -, -, -, hfile⟩ |
    ⟨-, -, before, oldest, after, rfl, -, -, hle, -⟩
  · exact hfile
  · exact absurd hfull (Nat.ne_of_lt hroom)
  · exact hfile
  · exact absurd (hlater oldest (by simp)) (UInt64.not_lt.mpr hle)

theorem Holds.file_file (h : orphans.Holds receipts) (htracks : orphans.tracks r.target = true) :
    ∃ receipts', (orphans.file r).2.Holds receipts' ∧
      ((orphans.file r).2.file r).2.Holds receipts' := by
  have hmem : ∀ others : List (Received p), r ∈ others ++ [r] := fun others =>
    List.mem_append_right others List.mem_cons_self
  rcases h.file htracks with ⟨hold, -, hfile⟩ | ⟨-, -, -, hfile⟩ | ⟨-, hfull, hlater, -, hfile⟩ |
    ⟨-, -, before, oldest, after, -, -, -, -, -, hfile⟩
  · exact ⟨_, hfile, (hfile.file_of_mem hold).symm ▸ hfile⟩
  · exact ⟨_, hfile, (hfile.file_of_mem (hmem _)).symm ▸ hfile⟩
  -- The one that was turned away is turned away again, as there is still no room.
  · have htracks' : (orphans.file r).2.tracks r.target = true := by rw [tracks_file, htracks]
    have hcapacity := (SameWindow.of_file orphans r).capacity_eq
    have haway : (orphans.file r).2.TurnsAway r :=
      (hfile.turnsAway_iff r).mpr ⟨hcapacity ▸ hfull, hlater⟩
    exact ⟨_, hfile, hfile.file_of_turnsAway htracks' haway⟩
  · exact ⟨_, hfile, (hfile.file_of_mem (hmem _)).symm ▸ hfile⟩

theorem Holds.release_again (h : orphans.Holds receipts) (rules : ChainRules p)
    (block : BeaconBlock p) :
    ((orphans.release rules block).2.1.release rules block).1 = [] := by
  cases htracks : orphans.tracks (p.epochAt block.slot) with
  | false =>
    rw [release_outside rules orphans htracks, release_outside rules orphans htracks]
  | true =>
    have htracks' : (orphans.release rules block).2.1.tracks (p.epochAt block.slot) = true := by
      rw [tracks_release, htracks]
    rw [((h.release rules htracks).2.release rules htracks').1, List.filter_filter,
      List.filter_eq_nil_iff]
    simp

end Orphans

/-! ## Intakes -/

namespace Intake

open Orphans (SameWindow)

variable [BlockStore σ]

/-- An event is delivered again. The store may have changed in between, but it answers the same when
it is asked about the block, as often as it was asked the first time. -/
inductive Redelivers (intake : Intake p) : IntakeEvent σ p → IntakeEvent σ p → Prop
  | submit {store store' : σ} (r : Received p)
      (hfirst : (BlockStore.lookup store' r.root).1 = (BlockStore.lookup store r.root).1)
      (hsecond : (BlockStore.lookup store r.root).1 = false →
        intake.orphans.isInitialized = true →
        (BlockStore.lookup (BlockStore.lookup store' r.root).2 r.root).1 =
          (BlockStore.lookup (BlockStore.lookup store r.root).2 r.root).1) :
      Redelivers intake (.submit store r) (.submit store' r)
  | tick (slot : Slot) : Redelivers intake (.tick slot) (.tick slot)
  | importBlock (block : BeaconBlock p) : Redelivers intake (.importBlock block) (.importBlock block)

variable {intake : Intake p}

/-- The same is found again. -/
theorem finds_of_sameAnswers {store store' : σ} {root : Root} {intake' : Intake p}
    (hwindow : SameWindow intake.orphans intake'.orphans)
    (hfirst : (BlockStore.lookup store' root).1 = (BlockStore.lookup store root).1)
    (hsecond : (BlockStore.lookup store root).1 = false → intake.orphans.isInitialized = true →
      (BlockStore.lookup (BlockStore.lookup store' root).2 root).1 =
        (BlockStore.lookup (BlockStore.lookup store root).2 root).1) :
    intake'.finds store' root = intake.finds store root := by
  rw [finds, finds, hfirst, ← hwindow.isInitialized_eq]
  cases hknown : (BlockStore.lookup store root).1 with
  | true => rfl
  | false =>
    cases hinit : intake.orphans.isInitialized with
    | false => rfl
    | true => rw [hsecond hknown hinit]

theorem sameOrphans_of_eq {orphans orphans' : Orphans p} (h : orphans' = orphans) :
    SameOrphans orphans orphans' := by
  subst h
  exact ⟨.refl _, rfl, rfl, rfl⟩

theorem WellFormed.submit_again (h : intake.WellFormed) {store store' : σ} {r : Received p}
    (hfinds : (intake.submit store r).2.1.finds store' r.root = intake.finds store r.root) :
    let once := (intake.submit store r).2.1
    (once.submit store' r).1 = (intake.submit store r).1.map Outcome.repeated ∧
      (once.submit store' r).2.1.pool = once.pool ∧
      SameOrphans once.orphans (once.submit store' r).2.1.orphans := by
  intro once
  obtain ⟨receipts, hholds⟩ := h.orphans
  rcases intake.submit_cases store r with ⟨hcase, hanswer, hpool, horphans⟩ |
    ⟨hcase, hinit, hanswer, hpool, horphans⟩ | ⟨hcase, hinit, hout, hanswer, hpool, horphans⟩ |
    ⟨hcase, hin, hanswer, hpool, horphans⟩ <;> rw [hanswer]
  · obtain ⟨hanswer', hpool', horphans'⟩ := submit_of_finds (hfinds.trans hcase)
    have hagain := intake.pool.add_again r.attestation
    rw [hpool, hagain] at hanswer' hpool'
    exact ⟨hanswer', hpool'.trans hpool.symm, sameOrphans_of_eq horphans'⟩
  · have hinit' : once.orphans.isInitialized = false := (congrArg _ horphans).trans hinit
    obtain ⟨hanswer', hpool', horphans'⟩ := submit_before_slot (hfinds.trans hcase) hinit'
    exact ⟨hanswer', hpool', sameOrphans_of_eq horphans'⟩
  · have hinit' : once.orphans.isInitialized = true := (congrArg _ horphans).trans hinit
    have hout' : once.orphans.tracks r.target = false :=
      (congrArg (Orphans.tracks · r.target) horphans).trans hout
    obtain ⟨hanswer', hpool', horphans'⟩ := submit_outside (hfinds.trans hcase) hinit' hout'
    exact ⟨hanswer', hpool', sameOrphans_of_eq horphans'⟩
  · have hin' : once.orphans.tracks r.target = true := by
      show (intake.submit store r).2.1.orphans.tracks _ = _
      rw [horphans, Orphans.tracks_file, hin]
    obtain ⟨hanswer', hpool', horphans'⟩ := submit_of_tracks (hfinds.trans hcase) hin'
    obtain ⟨receipts', hfile, hagain⟩ := hholds.file_file hin
    rw [← horphans] at hfile hagain
    refine ⟨hanswer', hpool', ?_⟩
    rw [horphans']
    exact sameOrphans_of_holds (.of_file _ r) hfile hagain

/-- The first delivery may change pool and orphans, but the second one does not. -/
theorem WellFormed.step_again (h : intake.WellFormed) (rules : ChainRules p)
    {event again : IntakeEvent σ p} (hagain : Redelivers intake event again) :
    let once := intake.step rules event
    let twice := once.step rules again
    twice.pool = once.pool ∧ SameOrphans once.orphans twice.orphans ∧
      once.answer? again = (intake.answer? event).map (·.map Outcome.repeated) ∧
      ∀ block, again = .importBlock block → (importBlock rules once block).1 = 0 := by
  intro once twice
  have hwf : once.WellFormed := h.step rules event
  obtain ⟨receipts, hholds⟩ := h.orphans
  obtain ⟨receipts', hholds'⟩ := hwf.orphans
  cases hagain with
  | @submit store store' r hfirst hsecond =>
    have hother : ∀ slot, IntakeEvent.submit store r ≠ .tick slot := nofun
    have hwindow := intake.sameWindow_step rules hother
    have hfinds := finds_of_sameAnswers hwindow hfirst hsecond
    obtain ⟨hanswer, hpool, horphans⟩ := h.submit_again hfinds
    exact ⟨hpool, horphans, congrArg some hanswer, nofun⟩
  | tick slot =>
    have hslot : max slot slot = slot := max_eq_of_le (UInt64.le_refl slot)
    have hpool : twice.pool = once.pool := by
      show ((intake.pool.tick slot).1.tick slot).1 = (intake.pool.tick slot).1
      rw [h.pool.tick_tick, hslot]
    have horphans : twice.orphans = once.orphans := by
      show ((intake.orphans.tick slot).1.tick slot).1 = (intake.orphans.tick slot).1
      rw [hholds.tick_tick, hslot]
    exact ⟨hpool, sameOrphans_of_eq horphans, rfl, nofun⟩
  | importBlock block =>
    obtain ⟨-, horphans⟩ := intake.importBlock_eq rules block
    have hnone : (once.orphans.release rules block).1 = [] := by
      show ((importBlock rules intake block).2.1.orphans.release rules block).1 = []
      rw [horphans, hholds.release_again]
    obtain ⟨hpool, hrelease⟩ := once.importBlock_eq rules block
    have hsame : twice.orphans = once.orphans := hrelease.trans (hholds'.release_eq_self rules hnone)
    rw [hnone] at hpool
    refine ⟨hpool, sameOrphans_of_eq hsame, rfl, ?_⟩
    intro _ heq
    cases heq
    exact congrArg List.length hnone

/-- Along every run, an event that is delivered again at once is harmless: pool and orphans are as
after the first delivery, a submission is answered as before or is a duplicate of what was pooled,
and a block releases nothing more. -/
theorem run_redelivered {σ : Type} [BlockStore σ] {p : Preset} (rules : ChainRules p)
    (settings : Settings) (start : Epoch) (tally : Option Tally) (events : List (IntakeEvent σ p))
    {event again : IntakeEvent σ p}
    (hagain : Redelivers ((new settings start tally).run rules events) event again) :
    let before := (new settings start tally).run rules events
    let once := before.step rules event
    let twice := once.step rules again
    twice.pool = once.pool ∧ SameOrphans once.orphans twice.orphans ∧
      once.answer? again = (before.answer? event).map (·.map Outcome.repeated) ∧
      ∀ block, again = .importBlock block → (importBlock rules once block).1 = 0 :=
  ((wellFormed_new settings start tally).run rules events).step_again rules hagain

/-- The only place is taken by a later epoch, so the receipt is turned away both times. The store has
got another block in between. -/
theorem run_redelivered_of_turnedAway :
    let later : Received .minimal :=
      { attestation.data := { target := { epoch := 11 }, beaconBlockRoot := .ofNat 32 2 } }
    let r : Received .minimal :=
      { attestation.data := { target := { epoch := 10 }, beaconBlockRoot := .ofNat 32 1 } }
    let rules : ChainRules .minimal := .rejecting []
    let store : LaggingStore := {}
    let before := (new { orphanCapacity := { entries := 1 } } 10 none).run rules
      [.tick 80, .submit store later]
    let event : IntakeEvent LaggingStore .minimal := .submit store r
    let again : IntakeEvent LaggingStore .minimal := .submit (store.know (.ofNat 32 2)) r
    let once := before.step rules event
    let twice := once.step rules again
    (before.orphans.TurnsAway r ∧ Redelivers before event again) ∧
      twice.pool = once.pool ∧ SameOrphans once.orphans twice.orphans ∧
      once.answer? again = some (.ok .orphaned) := by
  intro later r rules store before event again once twice
  have haway : before.orphans.TurnsAway r := by
    unfold Orphans.TurnsAway
    decide +kernel
  have hagain : Redelivers before event again :=
    .submit r (by decide +kernel) fun _ _ => by decide +kernel
  obtain ⟨hpool, horphans, hanswer, -⟩ := run_redelivered rules
    { orphanCapacity := { entries := 1 } } 10 none [.tick 80, .submit store later] hagain
  exact ⟨⟨haway, hagain⟩, hpool, horphans, hanswer⟩

end Intake

end AttestationIntake
