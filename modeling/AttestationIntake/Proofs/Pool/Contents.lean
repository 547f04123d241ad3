import AttestationIntake.Pool
import AttestationIntake.Proofs.Chain.Epoch
import Mathlib.Data.List.Sort

/-!
What is read of a pool, and the invariant of its buckets. A well-formed pool is determined by its
two epochs and by what it gives out for each target epoch.
-/

namespace AttestationIntake.Pool

open Std (ExtTreeMap ExtTreeSet)

variable {p : Preset} {pool pool' : Pool p}

/-! ## Reading -/

theorem mem_targeting (pool : Pool p) (epoch : Epoch) (a : Attestation p) :
    a ∈ pool.targeting epoch ↔ ∃ bucket, pool.buckets[epoch]? = some bucket ∧ a ∈ bucket := by
  rw [targeting, ExtTreeSet.mem_toList, ExtTreeMap.getD_eq_getD_getElem?]
  cases pool.buckets[epoch]? with
  | none => simp
  | some bucket => simp

theorem targeting_ascending (pool : Pool p) (epoch : Epoch) :
    (pool.targeting epoch).Pairwise fun a b => compare a b = .lt :=
  ExtTreeSet.ordered_toList

theorem mem_attestations (pool : Pool p) (a : Attestation p) :
    a ∈ pool.attestations ↔ ∃ epoch, a ∈ pool.targeting epoch := by
  simp only [attestations, List.mem_flatMap, mem_targeting, Prod.exists, ExtTreeSet.mem_toList,
    ExtTreeMap.mem_toList_iff_getElem?_eq_some]

theorem size_eq_length (pool : Pool p) : pool.size = pool.attestations.length := by
  rw [size, attestations]
  induction pool.buckets.toList with
  | nil => rfl
  | cons first rest ih =>
    rw [List.foldr_cons, List.flatMap_cons, List.length_append, ExtTreeSet.length_toList, ih]

/-- By target epoch, and within an epoch in their own order. -/
def Before (a b : Attestation p) : Prop :=
  a.data.target.epoch < b.data.target.epoch ∨
    a.data.target.epoch = b.data.target.epoch ∧ compare a b = .lt

theorem Before.irrefl (a : Attestation p) : ¬Before a a := by
  rintro (hlt | ⟨-, hlt⟩)
  · exact UInt64.lt_irrefl _ hlt
  · rw [Std.compare_self] at hlt
    cases hlt

theorem nodup_of_ascending {list : List (Attestation p)} (h : list.Pairwise Before) :
    list.Nodup := by
  apply h.imp
  rintro a b hbefore rfl
  exact Before.irrefl a hbefore

/-! ## The invariant -/

/-- No bucket is empty or holds what targets another epoch, or one that is no longer retained. -/
structure WellFormed (pool : Pool p) : Prop where
  noneEmpty : ∀ (epoch : Epoch) bucket, pool.buckets[epoch]? = some bucket → bucket ≠ ∅
  target_eq : ∀ epoch, ∀ a ∈ pool.targeting epoch, a.data.target.epoch = epoch
  threshold_le : ∀ epoch, ∀ a ∈ pool.targeting epoch, pool.threshold ≤ epoch

theorem wellFormed_empty (historic : UInt64) (start : Epoch) :
    (empty historic start : Pool p).WellFormed where
  noneEmpty := by
    intro epoch bucket hfind
    simp [empty] at hfind
  target_eq := by
    intro epoch a ha
    simp [empty, targeting] at ha
  threshold_le := by
    intro epoch a ha
    simp [empty, targeting] at ha

namespace WellFormed

theorem mem_attestations_iff (h : pool.WellFormed) (a : Attestation p) :
    a ∈ pool.attestations ↔ a ∈ pool.targeting a.data.target.epoch := by
  rw [mem_attestations]
  constructor
  · rintro ⟨epoch, ha⟩
    rwa [h.target_eq epoch a ha]
  · exact fun ha => ⟨_, ha⟩

theorem target_of_mem_toList (h : pool.WellFormed) {epoch : Epoch}
    {bucket : ExtTreeSet (Attestation p) compare} (hbucket : (epoch, bucket) ∈ pool.buckets.toList)
    {a : Attestation p} (ha : a ∈ bucket.toList) : a.data.target.epoch = epoch := by
  apply h.target_eq epoch a
  rw [mem_targeting]
  exact ⟨bucket, ExtTreeMap.mem_toList_iff_getElem?_eq_some.mp hbucket, ExtTreeSet.mem_toList.mp ha⟩

/-- Buckets stand in the order of their epochs, which their members target. -/
theorem attestations_ascending (h : pool.WellFormed) : pool.attestations.Pairwise Before := by
  rw [attestations, List.pairwise_flatMap]
  constructor
  -- One bucket has one epoch, and is in order itself.
  · intro (epoch, bucket) hbucket
    apply bucket.ordered_toList.imp_of_mem
    intro a b ha hb hlt
    have hepoch : a.data.target.epoch = b.data.target.epoch := by
      rw [h.target_of_mem_toList hbucket ha, h.target_of_mem_toList hbucket hb]
    exact .inr ⟨hepoch, hlt⟩
  · apply ExtTreeMap.ordered_keys_toList.imp_of_mem
    intro (epoch, bucket) (epoch', bucket') hbucket hbucket' hlt a ha b hb
    left
    rw [h.target_of_mem_toList hbucket ha, h.target_of_mem_toList hbucket' hb]
    exact Std.compare_eq_lt.mp hlt

/-- There is a bucket just where something is read. -/
theorem getElem?_buckets (h : pool.WellFormed) (epoch : Epoch) :
    pool.buckets[epoch]? =
      if pool.buckets.getD epoch ∅ = ∅ then none else some (pool.buckets.getD epoch ∅) := by
  rw [ExtTreeMap.getD_eq_getD_getElem?]
  cases hfind : pool.buckets[epoch]? with
  | none => rfl
  | some bucket => rw [Option.getD_some, if_neg (h.noneEmpty epoch bucket hfind)]

theorem ext (h : pool.WellFormed) (h' : pool'.WellFormed)
    (hhistoric : pool.historic = pool'.historic)
    (hcurrent : pool.currentEpoch = pool'.currentEpoch)
    (hmem : ∀ epoch a, a ∈ pool.targeting epoch ↔ a ∈ pool'.targeting epoch) : pool = pool' := by
  have hbuckets : pool.buckets = pool'.buckets := by
    apply ExtTreeMap.ext_getElem?
    intro epoch
    have hbucket : pool.buckets.getD epoch ∅ = pool'.buckets.getD epoch ∅ := by
      apply ExtTreeSet.ext_mem
      intro a
      rw [← ExtTreeSet.mem_toList, ← ExtTreeSet.mem_toList]
      exact hmem epoch a
    rw [h.getElem?_buckets, h'.getElem?_buckets, hbucket]
  obtain ⟨_, _, _⟩ := pool
  obtain ⟨_, _, _⟩ := pool'
  cases hhistoric
  cases hcurrent
  cases hbuckets
  rfl

end WellFormed

/-! ## Ticks -/

theorem tick_behind (pool : Pool p) {slot : Slot} (h : p.epochAt slot ≤ pool.currentEpoch) :
    (pool.tick slot).1 = pool := by
  rw [tick, if_pos h]

theorem tick_ahead (pool : Pool p) {slot : Slot} (h : ¬p.epochAt slot ≤ pool.currentEpoch) :
    (pool.tick slot).1 = { pool with
      currentEpoch := p.epochAt slot
      buckets := pool.buckets.filter fun target _ =>
        subCapped (p.epochAt slot) pool.historic ≤ target } := by
  rw [tick, if_neg h]
  rfl

theorem tick_frame (pool : Pool p) (slot : Slot) : ∃ buckets,
    (pool.tick slot).1 =
      { pool with currentEpoch := max pool.currentEpoch (p.epochAt slot), buckets } := by
  by_cases hbehind : p.epochAt slot ≤ pool.currentEpoch
  · exact ⟨pool.buckets, by rw [tick_behind pool hbehind, max_eq_of_ge hbehind]⟩
  · have hahead := UInt64.le_of_lt (UInt64.not_le.mp hbehind)
    exact ⟨_, by rw [tick_ahead pool hbehind, max_eq_of_le hahead]⟩

theorem threshold_le_tick (pool : Pool p) (slot : Slot) :
    pool.threshold ≤ (pool.tick slot).1.threshold := by
  obtain ⟨buckets, hframe⟩ := pool.tick_frame slot
  rw [hframe]
  apply subCapped_mono
  rw [UInt64.le_iff_toNat_le, toNat_max]
  exact Nat.le_max_left _ _

/-- Of what was read before, a tick leaves what the new threshold retains. -/
theorem WellFormed.mem_targeting_tick (h : pool.WellFormed) (slot : Slot) (epoch : Epoch)
    (a : Attestation p) : a ∈ (pool.tick slot).1.targeting epoch ↔
      a ∈ pool.targeting epoch ∧ (pool.tick slot).1.threshold ≤ epoch := by
  by_cases hbehind : p.epochAt slot ≤ pool.currentEpoch
  -- Nothing is pruned, and the invariant says that nothing had to be.
  · rw [tick_behind pool hbehind]
    exact ⟨fun ha => ⟨ha, h.threshold_le epoch a ha⟩, fun ha => ha.1⟩
  · rw [tick_ahead pool hbehind]
    simp only [mem_targeting, ExtTreeMap.getElem?_filter', Option.filter_eq_some_iff,
      decide_eq_true_eq]
    constructor
    · rintro ⟨bucket, ⟨hfind, hretained⟩, ha⟩
      exact ⟨⟨bucket, hfind, ha⟩, hretained⟩
    · rintro ⟨⟨bucket, hfind, ha⟩, hretained⟩
      exact ⟨bucket, ⟨hfind, hretained⟩, ha⟩

theorem WellFormed.tick (h : pool.WellFormed) (slot : Slot) : (pool.tick slot).1.WellFormed where
  noneEmpty := by
    by_cases hbehind : p.epochAt slot ≤ pool.currentEpoch
    · rw [tick_behind pool hbehind]
      exact h.noneEmpty
    · rw [tick_ahead pool hbehind]
      intro epoch bucket hfind
      rw [ExtTreeMap.getElem?_filter', Option.filter_eq_some_iff] at hfind
      exact h.noneEmpty epoch bucket hfind.1
  target_eq := by
    intro epoch a ha
    exact h.target_eq epoch a ((h.mem_targeting_tick slot epoch a).mp ha).1
  threshold_le := by
    intro epoch a ha
    exact ((h.mem_targeting_tick slot epoch a).mp ha).2

/-! ## Additions -/

theorem mem_targeting_put (pool : Pool p) (added : Attestation p) (epoch : Epoch)
    (a : Attestation p) : a ∈ (pool.put added).targeting epoch ↔
      a ∈ pool.targeting epoch ∨ (a = added ∧ added.data.target.epoch = epoch) := by
  simp only [targeting, put, ExtTreeSet.mem_toList, ExtTreeMap.getD_insert, Std.compare_eq_iff_eq]
  split
  · rename_i hepoch
    subst hepoch
    rw [ExtTreeSet.mem_insert, Std.compare_eq_iff_eq]
    simp only [and_true, or_comm, eq_comm]
  · rename_i hother
    simp only [hother, and_false, or_false]

theorem WellFormed.put (h : pool.WellFormed) {added : Attestation p}
    (hretained : pool.threshold ≤ added.data.target.epoch) : (pool.put added).WellFormed where
  noneEmpty := by
    intro epoch bucket hfind hempty
    rw [Pool.put, ExtTreeMap.getElem?_insert] at hfind
    split at hfind
    -- The bucket that was changed has the new attestation.
    · have hmem : added ∈ bucket := by
        rw [← Option.some.inj hfind, ExtTreeSet.mem_insert]
        exact .inl Std.compare_self
      rw [hempty] at hmem
      exact ExtTreeSet.not_mem_empty hmem
    · exact h.noneEmpty epoch bucket hfind hempty
  target_eq := by
    intro epoch a ha
    rcases (pool.mem_targeting_put added epoch a).mp ha with ha | ⟨rfl, hepoch⟩
    · exact h.target_eq epoch a ha
    · exact hepoch
  threshold_le := by
    intro epoch a ha
    show pool.threshold ≤ epoch
    rcases (pool.mem_targeting_put added epoch a).mp ha with ha | ⟨-, rfl⟩
    · exact h.threshold_le epoch a ha
    · exact hretained

/-- All that can become of an attestation. -/
theorem add_cases (pool : Pool p) (added : Attestation p) :
    (added.data.target.epoch < pool.threshold ∧ pool.add added = (.stale, pool)) ∨
      (pool.threshold ≤ added.data.target.epoch ∧
        added ∈ pool.targeting added.data.target.epoch ∧ pool.add added = (.duplicate, pool)) ∨
      (pool.threshold ≤ added.data.target.epoch ∧
        added ∉ pool.targeting added.data.target.epoch ∧
        pool.add added = (.pooled, pool.put added)) := by
  have hmem : added ∈ pool.targeting added.data.target.epoch ↔
      (pool.buckets.getD added.data.target.epoch ∅).contains added = true := by
    rw [targeting, ExtTreeSet.mem_toList, ExtTreeSet.contains_iff_mem]
  rw [hmem]
  by_cases hstale : added.data.target.epoch < pool.threshold
  · exact .inl ⟨hstale, by rw [add, if_pos hstale]⟩
  · have hretained := UInt64.not_lt.mp hstale
    by_cases hduplicate : (pool.buckets.getD added.data.target.epoch ∅).contains added = true
    · exact .inr (.inl ⟨hretained, hduplicate, by rw [add, if_neg hstale, if_pos hduplicate]⟩)
    · exact .inr (.inr ⟨hretained, hduplicate, by rw [add, if_neg hstale, if_neg hduplicate]⟩)

theorem add_frame (pool : Pool p) (added : Attestation p) :
    ∃ buckets, (pool.add added).2 = { pool with buckets } := by
  rcases pool.add_cases added with ⟨-, hadd⟩ | ⟨-, -, hadd⟩ | ⟨-, -, hadd⟩ <;> rw [hadd]
  · exact ⟨pool.buckets, rfl⟩
  · exact ⟨pool.buckets, rfl⟩
  · exact ⟨_, rfl⟩

@[simp]
theorem threshold_add (pool : Pool p) (added : Attestation p) :
    (pool.add added).2.threshold = pool.threshold := by
  obtain ⟨buckets, hframe⟩ := pool.add_frame added
  rw [hframe]
  rfl

theorem mem_targeting_add (pool : Pool p) (added : Attestation p) (epoch : Epoch)
    (a : Attestation p) : a ∈ (pool.add added).2.targeting epoch ↔
      a ∈ pool.targeting epoch ∨
        a = added ∧ added.data.target.epoch = epoch ∧ pool.threshold ≤ epoch := by
  rcases pool.add_cases added with ⟨hstale, hadd⟩ | ⟨-, hduplicate, hadd⟩ | ⟨hretained, -, hadd⟩ <;>
    rw [hadd]
  · constructor
    · exact .inl
    · rintro (ha | ⟨-, rfl, hretained⟩)
      · exact ha
      · exact absurd hstale (UInt64.not_lt.mpr hretained)
  · constructor
    · exact .inl
    · rintro (ha | ⟨rfl, rfl, -⟩)
      · exact ha
      · exact hduplicate
  · rw [mem_targeting_put]
    constructor
    · rintro (ha | ⟨ha, rfl⟩)
      · exact .inl ha
      · exact .inr ⟨ha, rfl, hretained⟩
    · rintro (ha | ⟨ha, hepoch, -⟩)
      · exact .inl ha
      · exact .inr ⟨ha, hepoch⟩

theorem WellFormed.add (h : pool.WellFormed) (added : Attestation p) :
    (pool.add added).2.WellFormed := by
  rcases pool.add_cases added with ⟨-, hadd⟩ | ⟨-, -, hadd⟩ | ⟨hretained, -, hadd⟩ <;> rw [hadd]
  · exact h
  · exact h
  · exact h.put hretained

end AttestationIntake.Pool
