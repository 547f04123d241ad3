import AttestationIntake.Proofs.Intake.Events
import AttestationIntake.Proofs.Orphans.Alike

/-!
How far it matters where and when attestations were received. Two receipts of one attestation both
take up room if they differ in this, so they can drive out a third one that would have found room
otherwise. As long as nothing is driven out, the same attestations wait and all answers are the
same. And even then it only matters which receipts are equal.
-/

namespace AttestationIntake

variable {p : Preset} {σ : Type}

namespace IntakeEvent

/-- Two events are the same but for where and when an attestation was received. -/
inductive SameBut : IntakeEvent σ p → IntakeEvent σ p → Prop
  | submit (store : σ) {r r' : Received p} (hsame : r.attestation = r'.attestation) :
      SameBut (submit store r) (submit store r')
  | tick (slot : Slot) : SameBut (tick slot) (tick slot)
  | importBlock (block : BeaconBlock p) : SameBut (importBlock block) (importBlock block)

def relabel (label : Received p → Received p) : IntakeEvent σ p → IntakeEvent σ p
  | submit store received => submit store (label received)
  | tick slot => tick slot
  | importBlock block => importBlock block

theorem sameBut_relabel {label : Received p → Received p} (h : Orphans.Relabels label)
    (event : IntakeEvent σ p) : SameBut event (event.relabel label) := by
  cases event with
  | submit store r => exact .submit store (h.attestation_eq r).symm
  | tick slot => exact .tick slot
  | importBlock block => exact .importBlock block

end IntakeEvent

/-- What is seen of an event: the answer to a submission, and afterwards the pool with what it gives
out for every state. -/
structure Sight (p : Preset) where
  answer : Option (Except IntakeError Outcome)
  pool : Pool p
  offChain? : BeaconState p → Option (List (Attestation p))

namespace Intake

open IntakeEvent (SameBut relabel)
open Orphans (SameWindow Relabels Relabeled)

variable [BlockStore σ]

def answer? (intake : Intake p) : IntakeEvent σ p → Option (Except IntakeError Outcome)
  | .submit store received => some (intake.submit store received).1
  | _ => none

def sight (rules : ChainRules p) (intake : Intake p) (event : IntakeEvent σ p) : Sight p where
  answer := intake.answer? event
  pool := (intake.step rules event).pool
  offChain? state := ((intake.step rules event).offChain? rules state).1

/-- What is seen along a run, event by event. -/
def transcript (rules : ChainRules p) : Intake p → List (IntakeEvent σ p) → List (Sight p)
  | _, [] => []
  | intake, event :: rest =>
      intake.sight rules event :: transcript rules (intake.step rules event) rest

/-- The receipt that an event drives out of the orphans for want of room. -/
def displaced? (intake : Intake p) : IntakeEvent σ p → Option (Received p)
  | .submit store received =>
      if intake.finds store received.root || !intake.orphans.tracks received.target then none
      else (intake.orphans.file received).1
  | _ => none

/-- No event of a run drives out a receipt. -/
def NoneDisplaced (rules : ChainRules p) : Intake p → List (IntakeEvent σ p) → Prop
  | _, [] => True
  | intake, event :: rest =>
      intake.displaced? event = none ∧ NoneDisplaced rules (intake.step rules event) rest

/-! ## Steps -/

/-- The same pool, the same window, and the same attestations waiting, whatever their receipts. -/
structure Alike (intake intake' : Intake p) : Prop where
  pool_eq : intake.pool = intake'.pool
  window : SameWindow intake.orphans intake'.orphans
  mem_orphans_iff : ∀ a, a ∈ intake.orphans.attestations ↔ a ∈ intake'.orphans.attestations

namespace Alike

variable {intake intake' : Intake p} {event event' : IntakeEvent σ p}

theorem finds_eq (h : Alike intake intake') (store : σ) (root : Root) :
    intake.finds store root = intake'.finds store root := by
  rw [finds, finds, h.window.isInitialized_eq]

/-- The same attestation gets the same answer. Either both orphans file it or neither does. -/
theorem submit (h : Alike intake intake') (store : σ) {r r' : Received p}
    (hsame : r.attestation = r'.attestation) :
    (intake.submit store r).1 = (intake'.submit store r').1 ∧
      (intake.submit store r).2.1.pool = (intake'.submit store r').2.1.pool ∧
      (((intake.submit store r).2.1.orphans = intake.orphans ∧
          (intake'.submit store r').2.1.orphans = intake'.orphans) ∨
        (intake.finds store r.root = false ∧ intake'.finds store r'.root = false ∧
          intake.orphans.tracks r.target = true ∧ intake'.orphans.tracks r'.target = true ∧
          (intake.submit store r).2.1.orphans = (intake.orphans.file r).2 ∧
          (intake'.submit store r').2.1.orphans = (intake'.orphans.file r').2)) := by
  have hfinds : intake'.finds store r'.root = intake.finds store r.root := by
    rw [h.finds_eq, Received.root, Received.root, hsame]
  have htracks : intake'.orphans.tracks r'.target = intake.orphans.tracks r.target := by
    rw [h.window.tracks_eq, Received.target, Received.target, hsame]
  rcases intake.submit_cases store r with ⟨hcase, hanswer, hpool, horphans⟩ |
    ⟨hcase, hinit, hanswer, hpool, horphans⟩ | ⟨hcase, hinit, hout, hanswer, hpool, horphans⟩ |
    ⟨hcase, hin, hanswer, hpool, horphans⟩ <;> rw [hanswer, hpool]
  · obtain ⟨hanswer', hpool', horphans'⟩ := submit_of_finds (hfinds.trans hcase)
    rw [hanswer', hpool', h.pool_eq, hsame]
    exact ⟨rfl, rfl, .inl ⟨horphans, horphans'⟩⟩
  · obtain ⟨hanswer', hpool', horphans'⟩ :=
      submit_before_slot (hfinds.trans hcase) (h.window.isInitialized_eq.symm.trans hinit)
    rw [hanswer', hpool']
    exact ⟨rfl, h.pool_eq, .inl ⟨horphans, horphans'⟩⟩
  · obtain ⟨hanswer', hpool', horphans'⟩ :=
      submit_outside (hfinds.trans hcase) (h.window.isInitialized_eq.symm.trans hinit)
        (htracks.trans hout)
    rw [hanswer', hpool']
    exact ⟨rfl, h.pool_eq, .inl ⟨horphans, horphans'⟩⟩
  · obtain ⟨hanswer', hpool', horphans'⟩ :=
      submit_of_tracks (hfinds.trans hcase) (htracks.trans hin)
    rw [hanswer', hpool']
    exact ⟨rfl, h.pool_eq,
      .inr ⟨hcase, hfinds.trans hcase, hin, htracks.trans hin, horphans, horphans'⟩⟩

theorem released_iff (h : Alike intake intake') (hwf : intake.WellFormed)
    (hwf' : intake'.WellFormed) (rules : ChainRules p) (block : BeaconBlock p)
    (a : Attestation p) :
    a ∈ (intake.orphans.release rules block).1.map (·.attestation) ↔
      a ∈ (intake'.orphans.release rules block).1.map (·.attestation) := by
  obtain ⟨receipts, hholds⟩ := hwf.orphans
  obtain ⟨receipts', hholds'⟩ := hwf'.orphans
  rw [hholds.mem_released, hholds'.mem_released, h.mem_orphans_iff, h.window.tracks_eq]

/-- Of one more event the same is seen, though the orphans need not stay alike. -/
theorem sight_eq (h : Alike intake intake') (hwf : intake.WellFormed) (hwf' : intake'.WellFormed)
    (rules : ChainRules p) (hevent : SameBut event event') :
    intake.sight rules event = intake'.sight rules event' := by
  have hanswer : intake.answer? event = intake'.answer? event' := by
    cases hevent with
    | submit store hsame => exact congrArg some (h.submit store hsame).1
    | tick slot => rfl
    | importBlock block => rfl
  have hpool : (intake.step rules event).pool = (intake'.step rules event').pool := by
    cases hevent with
    | submit store hsame => exact (h.submit store hsame).2.1
    | tick slot => exact congrArg (fun pool => (pool.tick slot).1) h.pool_eq
    | importBlock block =>
      rw [step, step, (importBlock_eq ..).1, (importBlock_eq ..).1, ← h.pool_eq]
      exact hwf.pool.run_submits_congr (h.released_iff hwf hwf' rules block)
  simp only [sight, Intake.offChain?, hanswer, hpool]

theorem pool_step_eq (h : Alike intake intake') (hwf : intake.WellFormed)
    (hwf' : intake'.WellFormed) (rules : ChainRules p) (hevent : SameBut event event') :
    (intake.step rules event).pool = (intake'.step rules event').pool :=
  congrArg Sight.pool (h.sight_eq hwf hwf' rules hevent)

/-- If no receipt has to leave for another, the same attestations wait afterwards. -/
theorem step (h : Alike intake intake') (hwf : intake.WellFormed) (hwf' : intake'.WellFormed)
    (rules : ChainRules p) (hevent : SameBut event event')
    (hnone : intake.displaced? event = none) (hnone' : intake'.displaced? event' = none) :
    Alike (intake.step rules event) (intake'.step rules event') := by
  have hpool := h.pool_step_eq hwf hwf' rules hevent
  obtain ⟨receipts, hholds⟩ := hwf.orphans
  obtain ⟨receipts', hholds'⟩ := hwf'.orphans
  cases hevent with
  | @submit store r r' hsame =>
    obtain ⟨-, -, hcases⟩ := h.submit store hsame
    rcases hcases with ⟨horphans, horphans'⟩ |
      ⟨hfinds, hfinds', htracks, htracks', horphans, horphans'⟩
    · refine ⟨hpool, ?_, ?_⟩ <;> rw [Intake.step, Intake.step, horphans, horphans']
      · exact h.window
      · exact h.mem_orphans_iff
    · have hfile : (intake.orphans.file r).1 = none := by
        simpa [displaced?, hfinds, htracks] using hnone
      have hfile' : (intake'.orphans.file r').1 = none := by
        simpa [displaced?, hfinds', htracks'] using hnone'
      refine ⟨hpool, ?_, ?_⟩ <;> rw [Intake.step, Intake.step, horphans, horphans']
      · exact h.window.file r r'
      · intro a
        rw [hholds.mem_attestations_file htracks hfile,
          hholds'.mem_attestations_file htracks' hfile', h.mem_orphans_iff, hsame]
  | tick slot =>
    refine ⟨hpool, h.window.tick slot, ?_⟩
    intro a
    show a ∈ (intake.orphans.tick slot).1.attestations ↔
      a ∈ (intake'.orphans.tick slot).1.attestations
    rw [hholds.mem_attestations_tick, hholds'.mem_attestations_tick, h.mem_orphans_iff,
      h.window.baselineAt_eq]
  | importBlock block =>
    refine ⟨hpool, ?_, ?_⟩ <;>
      rw [Intake.step, Intake.step, (importBlock_eq ..).2, (importBlock_eq ..).2]
    · exact h.window.release rules block
    · intro a
      rw [hholds.mem_attestations_release, hholds'.mem_attestations_release, h.mem_orphans_iff,
        h.window.tracks_eq]

end Alike

/-- With receipts that differ in their labels only, the orphans stay relabeled, whatever leaves. -/
theorem relabeled_step {label : Received p → Received p} (hlabel : Relabels label)
    {intake intake' : Intake p} (h : Alike intake intake')
    (horphans : Relabeled label intake.orphans intake'.orphans) (rules : ChainRules p)
    (event : IntakeEvent σ p) :
    Relabeled label (intake.step rules event).orphans
      (intake'.step rules (event.relabel label)).orphans := by
  cases event with
  | submit store r =>
    rw [IntakeEvent.relabel, step, step]
    obtain ⟨-, -, ⟨hafter, hafter'⟩ | ⟨-, -, htracks, -, hafter, hafter'⟩⟩ :=
      h.submit store (hlabel.attestation_eq r).symm <;> rw [hafter, hafter']
    · exact horphans
    · exact horphans.file hlabel htracks
  | tick slot => exact horphans.tick hlabel slot
  | importBlock block =>
    rw [IntakeEvent.relabel, step, step, (importBlock_eq ..).2, (importBlock_eq ..).2]
    exact horphans.release hlabel rules block

/-! ## Runs -/

theorem Alike.transcript_eq {intake intake' : Intake p} (h : Alike intake intake')
    (hwf : intake.WellFormed) (hwf' : intake'.WellFormed) (rules : ChainRules p)
    {events events' : List (IntakeEvent σ p)} (hevents : List.Forall₂ SameBut events events')
    (hnone : NoneDisplaced rules intake events) (hnone' : NoneDisplaced rules intake' events') :
    transcript rules intake events = transcript rules intake' events' := by
  induction hevents generalizing intake intake' with
  | nil => rfl
  | @cons event event' rest rest' hevent hrest ih =>
    obtain ⟨hfirst, hmore⟩ := hnone
    obtain ⟨hfirst', hmore'⟩ := hnone'
    have hstep := h.step hwf hwf' rules hevent hfirst hfirst'
    rw [transcript, transcript, h.sight_eq hwf hwf' rules hevent,
      ih hstep (hwf.step rules event) (hwf'.step rules event') hmore hmore']

theorem Alike.transcript_relabel {label : Received p → Received p} (hlabel : Relabels label)
    {intake intake' : Intake p} (h : Alike intake intake') (hwf : intake.WellFormed)
    (hwf' : intake'.WellFormed) (horphans : Relabeled label intake.orphans intake'.orphans)
    (rules : ChainRules p) (events : List (IntakeEvent σ p)) :
    transcript rules intake events = transcript rules intake' (events.map (relabel label)) := by
  induction events generalizing intake intake' with
  | nil => rfl
  | cons event rest ih =>
    have hevent := IntakeEvent.sameBut_relabel hlabel event
    have hafter := relabeled_step hlabel h horphans rules event
    have hstep : Alike (intake.step rules event) (intake'.step rules (event.relabel label)) :=
      ⟨h.pool_step_eq hwf hwf' rules hevent, hafter.window, hafter.mem_attestations_iff hlabel⟩
    rw [List.map_cons, transcript, transcript, h.sight_eq hwf hwf' rules hevent,
      ih hstep (hwf.step rules event) (hwf'.step rules _) hafter]

theorem alike_refl (intake : Intake p) : Alike intake intake :=
  ⟨rfl, .refl _, fun _ => Iff.rfl⟩

/-- As long as no receipt drives out another, nothing that is seen depends on where and when
attestations were received. -/
theorem transcript_eq_of_noneDisplaced (rules : ChainRules p) (settings : Settings) (start : Epoch)
    (tally : Option Tally) {events events' : List (IntakeEvent σ p)}
    (hevents : List.Forall₂ SameBut events events')
    (hnone : NoneDisplaced rules (new settings start tally) events)
    (hnone' : NoneDisplaced rules (new settings start tally) events') :
    transcript rules (new settings start tally) events =
      transcript rules (new settings start tally) events' :=
  have hwf := wellFormed_new settings start tally
  (alike_refl _).transcript_eq hwf hwf rules hevents hnone hnone'

/-- One attestation waits by two receipts, and both are released. -/
theorem transcript_eq_of_two_receipts :
    let first : Received .minimal := { attestation := { data := { target := { epoch := 10 } } } }
    let later : Received .minimal := { first with receivedAt := 1 }
    let events (second : Received .minimal) : List (IntakeEvent LaggingStore .minimal) :=
      [.tick 80, .submit {} first, .submit {} second, .importBlock { slot := 80 }]
    transcript (.rejecting []) (new {} 10 none) (events first) =
      transcript (.rejecting []) (new {} 10 none) (events later) :=
  transcript_eq_of_noneDisplaced (.rejecting []) {} 10 none
    (.cons (.tick 80) (.cons (.submit _ rfl) (.cons (.submit _ (by rfl))
      (.cons (.importBlock _) .nil))))
    ⟨rfl, rfl, rfl, rfl, trivial⟩ ⟨rfl, rfl, rfl, rfl, trivial⟩

/-- Of three deliveries there is room for two. Whether the third is a receipt of its own decides
whether the first still waits when its block is imported. -/
theorem transcript_ne_of_second_receipt :
    let vote (root : Nat) : Received .minimal :=
      { attestation.data := { target := { epoch := 10 }, beaconBlockRoot := .ofNat 32 root } }
    let store : LaggingStore := {}
    let events (third : Received .minimal) : List (IntakeEvent LaggingStore .minimal) :=
      [.tick 80, .submit store (vote 2), .submit store (vote 1), .submit store third,
        .importBlock { slot := 80, stateRoot := .ofNat 32 2 },
        .submit (store.know (.ofNat 32 2)) (vote 2)]
    let lastAnswer (events : List (IntakeEvent LaggingStore .minimal)) :=
      (transcript (.rejecting []) (new { orphanCapacity := { entries := 2 } } 10 none)
        events).getLast?.bind (·.answer)
    List.Forall₂ SameBut (events (vote 1)) (events { vote 1 with receivedAt := 1 }) ∧
      lastAnswer (events (vote 1)) = some (.ok .duplicate) ∧
      lastAnswer (events { vote 1 with receivedAt := 1 }) = some (.ok .pooled) :=
  ⟨.cons (.tick 80) (.cons (.submit _ rfl) (.cons (.submit _ rfl) (.cons (.submit _ (by rfl))
    (.cons (.importBlock _) (.cons (.submit _ rfl) .nil))))), rfl, rfl⟩

/-- Where receipts drive out others, only their being equal or not counts, and not what they are. -/
theorem transcript_relabel_new (rules : ChainRules p) (settings : Settings) (start : Epoch)
    (tally : Option Tally) {label : Received p → Received p} (hlabel : Relabels label)
    (events : List (IntakeEvent σ p)) :
    transcript rules (new settings start tally) events =
      transcript rules (new settings start tally) (events.map (relabel label)) :=
  have hwf := wellFormed_new settings start tally
  (alike_refl _).transcript_relabel hlabel hwf hwf
    ⟨.refl _, [], Orphans.holds_empty .., Orphans.holds_empty ..⟩ rules events

end Intake

end AttestationIntake
