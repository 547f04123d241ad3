import AttestationIntake.Mailbox.Message
import AttestationIntake.Proofs.Intake.Accounts
import AttestationIntake.Proofs.Intake.Submissions
import Mathlib.Data.List.Dedup

/-!
All that the import of a block does. Outside the window, and before the first slot, that is nothing.
Otherwise what waits for the block leaves the orphans, whatever else waits stays in its order, and
the pool is offered what left, one by one.
-/

namespace AttestationIntake

variable {p : Preset}

/-! ## Orphans -/

namespace Orphans

/-- The receipts that wait for a block, in the order in which they were stored. -/
def waiting (orphans : Orphans p) (root : Root) : List (Received p) :=
  orphans.stored.filter (·.root = root)

variable {orphans : Orphans p} {receipts : List (Received p)} {block : BeaconBlock p}

theorem Holds.release_eq_waiting (h : orphans.Holds receipts) (rules : ChainRules p)
    (htracks : orphans.tracks (p.epochAt block.slot) = true) :
    (orphans.release rules block).1 = orphans.waiting (rules.blockRoot block) := by
  rw [(h.release rules htracks).1, waiting, h.stored_eq]

/-- The entries that stay keep their numbers. -/
theorem Holds.entries_release (h : orphans.Holds receipts) (rules : ChainRules p)
    (htracks : orphans.tracks (p.epochAt block.slot) = true) :
    (orphans.release rules block).2.1.entries =
      orphans.entries.filter (·.receipt.root ≠ rules.blockRoot block) := by
  have hnodup : (orphans.entries.map (·.receipt)).Nodup := by
    rw [h.receipts_entries]
    exact h.nodup
  rw [(h.release rules htracks).2.entries_eq_filter (h.entries_release_subset rules block)
    h.entries_ascending hnodup]
  apply List.filter_congr
  intro e he
  have hmem : e.receipt ∈ receipts := by
    rw [← h.receipts_entries]
    exact List.mem_map_of_mem he
  simp [hmem]

theorem Holds.values_release (h : orphans.Holds receipts) (rules : ChainRules p)
    (htracks : orphans.tracks (p.epochAt block.slot) = true) :
    (orphans.release rules block).2.1.index.values =
      orphans.index.values.filter (·.root ≠ rules.blockRoot block) := by
  rw [(h.release rules htracks).2.values_eq, h.values_eq]
  exact sortByEpoch_filter Received.target receipts _

theorem Holds.size_release (h : orphans.Holds receipts) (rules : ChainRules p)
    (block : BeaconBlock p) :
    (orphans.release rules block).2.1.size + (orphans.release rules block).1.length =
      orphans.size := by
  cases htracks : orphans.tracks (p.epochAt block.slot) with
  | false =>
    rw [release_outside rules orphans htracks]
    rfl
  | true =>
    obtain ⟨hreleased, hrest⟩ := h.release rules htracks
    have hparts := List.length_eq_length_filter_add (l := receipts)
      (·.root = rules.blockRoot block)
    simp only [← decide_not] at hparts
    rw [hrest.size_eq, hreleased, h.size_eq, hparts]
    exact Nat.add_comm ..

end Orphans

/-! ## Pools -/

namespace Pool

variable {pool : Pool p}

/-- What is new to a pool of these attestations and is still retained, each once. -/
def gains (pool : Pool p) (list : List (Attestation p)) : List (Attestation p) :=
  (list.filter fun a =>
    pool.threshold ≤ a.data.target.epoch && !pool.attestations.contains a).dedup

theorem mem_gains (pool : Pool p) (list : List (Attestation p)) (a : Attestation p) :
    a ∈ pool.gains list ↔
      a ∈ list ∧ pool.threshold ≤ a.data.target.epoch ∧ a ∉ pool.attestations := by
  rw [gains, List.mem_dedup, List.mem_filter, Bool.and_eq_true, decide_eq_true_eq,
    Bool.not_eq_true', ← Bool.not_eq_true, List.contains_iff_mem]

theorem WellFormed.attestations_run_submits_perm (h : pool.WellFormed)
    (list : List (Attestation p)) :
    (pool.run (list.map .submit)).attestations.Perm (pool.attestations ++ pool.gains list) := by
  have hafter := h.run (list.map .submit)
  have hnodup : (pool.attestations ++ pool.gains list).Nodup := by
    apply h.nodup_attestations.append (List.nodup_dedup _)
    intro a ha hgained
    exact ((pool.mem_gains list a).mp hgained).2.2 ha
  rw [List.perm_ext_iff_of_nodup hafter.nodup_attestations hnodup]
  intro a
  rw [hafter.mem_attestations_iff, mem_targeting_run_submits, ← h.mem_attestations_iff,
    List.mem_append, mem_gains]
  by_cases ha : a ∈ pool.attestations
  · simp only [ha, true_or]
  · simp only [ha, false_or, not_false_eq_true, and_true, true_and]

end Pool

/-! ## Imports -/

namespace Intake

open Orphans (SameWindow)

variable {σ : Type} [BlockStore σ]

/-- What waited for a block has been handed over to the pool: it is counted, it has left the orphans
and nothing else has, and the pool has taken in what it did not have and still retains. -/
structure HandsOver (before after : Intake p) (root : Root) (count : Nat) : Prop where
  count_eq : count = (before.orphans.entries.filter (·.receipt.root = root)).length
  entries_eq : after.orphans.entries = before.orphans.entries.filter (·.receipt.root ≠ root)
  values_eq : after.orphans.index.values = before.orphans.index.values.filter (·.root ≠ root)
  size_eq : after.orphans.size + count = before.orphans.size
  window : SameWindow before.orphans after.orphans
  /-- One by one, in the order in which they were stored. -/
  pool_eq : after.pool =
    (before.orphans.waiting root).foldl (fun pool r => (pool.add r.attestation).2) before.pool
  gained : after.pool.attestations.Perm (before.pool.attestations ++
    before.pool.gains ((before.orphans.waiting root).map (·.attestation)))

variable {intake : Intake p} {block : BeaconBlock p}

theorem importBlock_fst (rules : ChainRules p) (intake : Intake p) (block : BeaconBlock p) :
    (importBlock rules intake block).1 = (intake.orphans.release rules block).1.length := rfl

theorem importBlock_outside (rules : ChainRules p)
    (htracks : intake.orphans.tracks (p.epochAt block.slot) = false) :
    (importBlock rules intake block).1 = 0 ∧
      (importBlock rules intake block).2.1.pool = intake.pool ∧
      (importBlock rules intake block).2.1.orphans = intake.orphans := by
  obtain ⟨hpool, horphans⟩ := intake.importBlock_eq rules block
  have hrelease := Orphans.release_outside rules intake.orphans htracks
  rw [hrelease] at hpool horphans
  rw [importBlock_fst, hrelease]
  exact ⟨rfl, hpool, horphans⟩

theorem WellFormed.handsOver (h : intake.WellFormed) (rules : ChainRules p)
    (htracks : intake.orphans.tracks (p.epochAt block.slot) = true) :
    intake.HandsOver (importBlock rules intake block).2.1 (rules.blockRoot block)
      (importBlock rules intake block).1 := by
  obtain ⟨receipts, hholds⟩ := h.orphans
  obtain ⟨hpool, horphans⟩ := intake.importBlock_eq rules block
  have hreleased := hholds.release_eq_waiting rules htracks
  rw [hreleased] at hpool
  refine ⟨?_, ?_, ?_, ?_, ?_, ?_, ?_⟩
  · rw [importBlock_fst, hreleased, Orphans.waiting, Orphans.stored, List.filter_map, List.length_map]
    rfl
  · rw [horphans, hholds.entries_release rules htracks]
  · rw [horphans, hholds.values_release rules htracks]
  · rw [horphans, importBlock_fst, hholds.size_release]
  · rw [horphans]
    exact .of_release rules intake.orphans block
  · rw [hpool, Pool.run, List.foldl_map, List.foldl_map]
    rfl
  · rw [hpool]
    exact h.pool.attestations_run_submits_perm _

/-- Along every run, a block that is imported before the first slot or outside the window changes
nothing, and any other takes over all that waits for it. Wherever an import is handled next to a
store, the store is left alone and makes no difference. -/
theorem run_importBlock_effect {p : Preset} {σ : Type} [BlockStore σ] (rules : ChainRules p)
    (settings : Settings) (start : Epoch) (tally : Option Tally) (events : List (IntakeEvent σ p))
    (block : BeaconBlock p) :
    let before : Intake p := (new settings start tally).run rules events
    let count := (importBlock rules before block).1
    let after := (importBlock rules before block).2.1
    ((∀ slot, .tick slot ∉ events) ∨
        before.orphans.index.window.contains (p.epochAt block.slot) = false →
      count = 0 ∧ after.pool = before.pool ∧ after.orphans = before.orphans) ∧
    ((∃ slot, .tick slot ∈ events) →
      before.orphans.index.window.contains (p.epochAt block.slot) = true →
        before.HandsOver after (rules.blockRoot block) count) ∧
    ∀ store : σ, ((Message.blockImported block).handle rules before store).intake = after ∧
      ((Message.blockImported block).handle rules before store).store = store := by
  intro before count after
  have hwf : before.WellFormed := (wellFormed_new settings start tally).run rules events
  have hinit : before.orphans.isInitialized = true ↔ ∃ slot, .tick slot ∈ events :=
    (isInitialized_run ..).trans (or_iff_right Bool.false_ne_true)
  refine ⟨?_, ?_, fun store => ⟨rfl, rfl⟩⟩
  · intro houtside
    apply importBlock_outside
    rw [Orphans.tracks, Bool.and_eq_false_iff, ← Bool.not_eq_true, hinit, not_exists]
    exact houtside
  · intro hslot hwindow
    apply hwf.handsOver
    rw [Orphans.tracks, hinit.mpr hslot, hwindow]
    rfl

/-- Two receipts of one attestation wait for the block, and one for another block stands between
them. The pool takes in the attestation once. -/
theorem run_importBlock_effect_of_two_receipts :
    let vote (root : Nat) : Received .minimal :=
      { attestation.data := { target := { epoch := 10 }, beaconBlockRoot := .ofNat 32 root } }
    let block : BeaconBlock .minimal := { slot := 80, stateRoot := .ofNat 32 1 }
    let rules : ChainRules .minimal := .rejecting []
    let events : List (IntakeEvent LaggingStore .minimal) := [.tick 80, .submit {} (vote 1),
      .submit {} (vote 2), .submit {} { vote 1 with receivedAt := 1 }]
    let before := (new {} 10 none).run rules events
    let count := (importBlock rules before block).1
    let after := (importBlock rules before block).2.1
    ((∃ slot, .tick slot ∈ events) ∧
        before.orphans.index.window.contains (Preset.minimal.epochAt block.slot) = true) ∧
      before.HandsOver after (rules.blockRoot block) count ∧
      count = 2 ∧ after.pool.size = 1 ∧ after.orphans.size = 1 := by
  intro vote block rules events
  have hslot : ∃ slot, .tick slot ∈ events := ⟨80, by simp [events]⟩
  have hwindow : ((new {} 10 none).run rules events).orphans.index.window.contains
      (Preset.minimal.epochAt block.slot) = true := by decide +kernel
  have hhandsOver := (run_importBlock_effect rules {} 10 none events block).2.1 hslot hwindow
  exact ⟨⟨hslot, hwindow⟩, hhandsOver, by decide +kernel, by decide +kernel, by decide +kernel⟩

end Intake

end AttestationIntake
