import AttestationIntake.Proofs.Pool.Contents
import Mathlib.Data.List.Dedup
import Mathlib.Data.List.Induction

/-!
What a pool holds after any events, without the history that led there. Only the greatest epoch the
clock has reached counts, and which attestations were submitted at all. Whether one came too late or
left too early is decided by the last threshold alone, as thresholds never move backward.
-/

namespace AttestationIntake

inductive PoolEvent (p : Preset) where
  | tick (slot : Slot)
  | submit (attestation : Attestation p)

namespace PoolEvent

variable {p : Preset}

/-- The epoch that the clock has reached. -/
def epoch? : PoolEvent p → Option Epoch
  | tick slot => some (p.epochAt slot)
  | submit _ => none

def attestation? : PoolEvent p → Option (Attestation p)
  | tick _ => none
  | submit attestation => some attestation

/-- The greatest of `start` and the epochs of all ticks. -/
def latestEpoch (start : Epoch) (events : List (PoolEvent p)) : Epoch :=
  (events.filterMap epoch?).foldl max start

theorem latestEpoch_tick (start : Epoch) (events : List (PoolEvent p)) (slot : Slot) :
    latestEpoch start (events ++ [.tick slot]) =
      max (latestEpoch start events) (p.epochAt slot) := by
  rw [latestEpoch, List.filterMap_append, List.foldl_append]
  rfl

theorem latestEpoch_submit (start : Epoch) (events : List (PoolEvent p)) (a : Attestation p) :
    latestEpoch start (events ++ [.submit a]) = latestEpoch start events := by
  rw [latestEpoch, List.filterMap_append, List.foldl_append]
  rfl

theorem latestEpoch_perm (start : Epoch) {events events' : List (PoolEvent p)}
    (h : events.Perm events') : latestEpoch start events = latestEpoch start events' := by
  apply (h.filterMap epoch?).foldl_eq'
  intro a _ b _ latest
  rw [← UInt64.toNat_inj]
  simp only [toNat_max]
  omega

end PoolEvent

namespace Pool

open PoolEvent (latestEpoch)

variable {p : Preset}

def step (pool : Pool p) : PoolEvent p → Pool p
  | .tick slot => (pool.tick slot).1
  | .submit attestation => (pool.add attestation).2

def run (pool : Pool p) (events : List (PoolEvent p)) : Pool p := events.foldl step pool

theorem run_snoc (pool : Pool p) (events : List (PoolEvent p)) (event : PoolEvent p) :
    pool.run (events ++ [event]) = (pool.run events).step event := by
  rw [run, List.foldl_append]
  rfl

theorem WellFormed.step {pool : Pool p} (h : pool.WellFormed) (event : PoolEvent p) :
    (pool.step event).WellFormed := by
  cases event with
  | tick slot => exact h.tick slot
  | submit attestation => exact h.add attestation

theorem WellFormed.run {pool : Pool p} (h : pool.WellFormed) (events : List (PoolEvent p)) :
    (pool.run events).WellFormed := by
  induction events generalizing pool with
  | nil => exact h
  | cons event events ih => exact ih (h.step event)

/-! ## Epochs -/

@[simp]
theorem run_historic (pool : Pool p) (events : List (PoolEvent p)) :
    (pool.run events).historic = pool.historic := by
  induction events generalizing pool with
  | nil => rfl
  | cons event events ih =>
    rw [show pool.run (event :: events) = (pool.step event).run events from rfl, ih]
    cases event with
    | tick slot =>
      obtain ⟨buckets, hframe⟩ := pool.tick_frame slot
      rw [step, hframe]
    | submit a =>
      obtain ⟨buckets, hframe⟩ := pool.add_frame a
      rw [step, hframe]

theorem run_currentEpoch (pool : Pool p) (events : List (PoolEvent p)) :
    (pool.run events).currentEpoch = latestEpoch pool.currentEpoch events := by
  induction events using List.reverseRecOn with
  | nil => rfl
  | append_singleton events event ih =>
    rw [run_snoc]
    cases event with
    | tick slot =>
      obtain ⟨buckets, hframe⟩ := (pool.run events).tick_frame slot
      rw [step, hframe, PoolEvent.latestEpoch_tick, ← ih]
    | submit a =>
      obtain ⟨buckets, hframe⟩ := (pool.run events).add_frame a
      rw [step, hframe, PoolEvent.latestEpoch_submit, ← ih]

/-! ## Contents -/

theorem mem_targeting_run (historic : UInt64) (start : Epoch) (events : List (PoolEvent p))
    (epoch : Epoch) (a : Attestation p) :
    a ∈ ((empty historic start).run events).targeting epoch ↔
      ((empty historic start).run events).threshold ≤ epoch ∧ a.data.target.epoch = epoch ∧
        .submit a ∈ events := by
  -- By the last event, as the threshold on the right is the one at the end.
  induction events using List.reverseRecOn with
  | nil => simp [run, empty, targeting]
  | append_singleton events event ih =>
    rw [run_snoc]
    cases event with
    | tick slot =>
      have hwf := (wellFormed_empty historic start).run events
      have hforward := ((empty historic start).run events).threshold_le_tick slot
      rw [step, hwf.mem_targeting_tick, ih, List.mem_append]
      constructor
      · rintro ⟨⟨-, htarget, hsubmit⟩, hretained⟩
        exact ⟨hretained, htarget, .inl hsubmit⟩
      -- What is retained now was not pruned or turned away before: the threshold was lower.
      · rintro ⟨hretained, htarget, hsubmit | hsubmit⟩
        · exact ⟨⟨UInt64.le_trans hforward hretained, htarget, hsubmit⟩, hretained⟩
        · simp at hsubmit
    | submit added =>
      rw [step, mem_targeting_add, threshold_add, ih, List.mem_append, List.mem_singleton,
        PoolEvent.submit.injEq]
      constructor
      · rintro (⟨hretained, htarget, hsubmit⟩ | ⟨rfl, htarget, hretained⟩)
        · exact ⟨hretained, htarget, .inl hsubmit⟩
        · exact ⟨hretained, htarget, .inr rfl⟩
      · rintro ⟨hretained, htarget, hsubmit | rfl⟩
        · exact .inl ⟨hretained, htarget, hsubmit⟩
        · exact .inr ⟨rfl, htarget, hretained⟩

theorem run_submits_frame (pool : Pool p) (list : List (Attestation p)) :
    ∃ buckets, pool.run (list.map .submit) = { pool with buckets } := by
  induction list generalizing pool with
  | nil => exact ⟨pool.buckets, rfl⟩
  | cons first rest ih =>
    obtain ⟨buckets, hfirst⟩ := pool.add_frame first
    obtain ⟨buckets', hrest⟩ := ih (pool.add first).2
    rw [hfirst] at hrest
    refine ⟨buckets', ?_⟩
    rw [← hrest, ← hfirst]
    rfl

/-- Whatever the pool held before, submissions alone add what is retained of them. -/
theorem mem_targeting_run_submits (pool : Pool p) (list : List (Attestation p)) (epoch : Epoch)
    (a : Attestation p) : a ∈ (pool.run (list.map .submit)).targeting epoch ↔
      a ∈ pool.targeting epoch ∨
        a ∈ list ∧ a.data.target.epoch = epoch ∧ pool.threshold ≤ epoch := by
  induction list generalizing pool with
  | nil => simp [run]
  | cons first rest ih =>
    rw [show pool.run ((first :: rest).map .submit) =
      (pool.add first).2.run (rest.map .submit) from rfl, ih, mem_targeting_add, threshold_add,
      List.mem_cons]
    constructor
    · rintro ((ha | ⟨rfl, htarget, hretained⟩) | ⟨ha, hretained⟩)
      · exact .inl ha
      · exact .inr ⟨.inl rfl, htarget, hretained⟩
      · exact .inr ⟨.inr ha, hretained⟩
    · rintro (ha | ⟨rfl | ha, htarget, hretained⟩)
      · exact .inl (.inl ha)
      · exact .inl (.inr ⟨rfl, htarget, hretained⟩)
      · exact .inr ⟨ha, htarget, hretained⟩

theorem WellFormed.run_submits_congr {pool : Pool p} (h : pool.WellFormed)
    {list list' : List (Attestation p)} (hmem : ∀ a, a ∈ list ↔ a ∈ list') :
    pool.run (list.map .submit) = pool.run (list'.map .submit) := by
  obtain ⟨buckets, hframe⟩ := pool.run_submits_frame list
  obtain ⟨buckets', hframe'⟩ := pool.run_submits_frame list'
  apply (h.run _).ext (h.run _)
  · rw [hframe, hframe']
  · rw [hframe, hframe']
  · intro epoch a
    rw [mem_targeting_run_submits, mem_targeting_run_submits, hmem]

/-- What is read of a pool, in terms of the events it has seen. -/
structure ClosedForm (pool : Pool p) (historic : UInt64) (start : Epoch)
    (events : List (PoolEvent p)) : Prop where
  currentEpoch_eq : pool.currentEpoch = latestEpoch start events
  threshold_eq : pool.threshold.toNat = (latestEpoch start events).toNat - historic.toNat
  targeting_ascending : ∀ epoch, (pool.targeting epoch).Pairwise fun a b => compare a b = .lt
  /-- In particular nothing targets an epoch before the threshold. -/
  mem_targeting_iff : ∀ epoch a, a ∈ pool.targeting epoch ↔
    pool.threshold ≤ epoch ∧ a.data.target.epoch = epoch ∧ .submit a ∈ events
  size_eq : pool.size = ((events.filterMap (·.attestation?)).filter fun a =>
    pool.threshold ≤ a.data.target.epoch).dedup.length

theorem threshold_run (historic : UInt64) (start : Epoch) (events : List (PoolEvent p)) :
    ((empty historic start).run events).threshold =
      subCapped (latestEpoch start events) historic := by
  rw [threshold, run_currentEpoch, run_historic]
  rfl

theorem size_run (historic : UInt64) (start : Epoch) (events : List (PoolEvent p)) :
    ((empty historic start).run events).size =
      ((events.filterMap (·.attestation?)).filter fun a =>
        ((empty historic start).run events).threshold ≤ a.data.target.epoch).dedup.length := by
  have hwf := (wellFormed_empty historic start).run events
  rw [size_eq_length]
  apply List.Perm.length_eq
  rw [List.perm_ext_iff_of_nodup (nodup_of_ascending hwf.attestations_ascending)
    (List.nodup_dedup _)]
  intro a
  have hsubmit : a ∈ events.filterMap (·.attestation?) ↔ .submit a ∈ events := by
    rw [List.mem_filterMap]
    constructor
    · rintro ⟨_ | submitted, hmem, heq⟩
      · cases heq
      · cases heq
        exact hmem
    · exact fun hmem => ⟨_, hmem, rfl⟩
  rw [hwf.mem_attestations_iff, mem_targeting_run, List.mem_dedup, List.mem_filter, hsubmit,
    decide_eq_true_eq]
  constructor
  · rintro ⟨hretained, -, hmem⟩
    exact ⟨hmem, hretained⟩
  · rintro ⟨hmem, hretained⟩
    exact ⟨hretained, rfl, hmem⟩

theorem run_perm (historic : UInt64) (start : Epoch) {events events' : List (PoolEvent p)}
    (h : events.Perm events') :
    (empty historic start).run events = (empty historic start).run events' := by
  have hwf := (wellFormed_empty historic start).run events
  have hwf' := (wellFormed_empty historic start).run events'
  have hlatest := PoolEvent.latestEpoch_perm start h
  apply hwf.ext hwf'
  · rw [run_historic, run_historic]
  · rw [run_currentEpoch, run_currentEpoch]
    exact hlatest
  · intro epoch a
    rw [mem_targeting_run, mem_targeting_run, threshold_run, threshold_run, hlatest, h.mem_iff]

/-- A pool is a function of the greatest epoch reached and of the set of what was submitted. The
order of events does not count. -/
theorem run_closedForm (historic : UInt64) (start : Epoch) (events : List (PoolEvent p)) :
    ((empty historic start).run events).ClosedForm historic start events ∧
      ∀ events', events.Perm events' →
        (empty historic start).run events' = (empty historic start).run events where
  left := {
    currentEpoch_eq := run_currentEpoch (empty historic start) events
    threshold_eq := by rw [threshold_run, toNat_subCapped]
    targeting_ascending := targeting_ascending _
    mem_targeting_iff := mem_targeting_run historic start events
    size_eq := size_run historic start events }
  right := fun _ h => (run_perm historic start h).symm

/-- In the ninth epoch an attestation of the first is gone, whether it was pruned or came late. -/
theorem run_pruned_eq_stale :
    (empty 1 0 : Pool .minimal).run [.submit {}, .tick 64] =
      (empty 1 0).run [.tick 64, .submit {}] :=
  (run_closedForm 1 0 [.tick 64, .submit {}]).2 _ (List.Perm.swap _ _ [])

end Pool

end AttestationIntake
