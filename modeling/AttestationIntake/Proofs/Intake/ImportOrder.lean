import AttestationIntake.Proofs.EpochIndex.Composition
import AttestationIntake.Proofs.Intake.Events
import AttestationIntake.Proofs.Tally.Figures

/-!
The order of imports. Blocks that are imported in a row release the same receipts in every order,
only one after the other in another way, and the pool takes them in with the same outcomes. So pool,
orphans and tally are the same in the end, and so is the number of all that were released.
-/

namespace AttestationIntake

variable {p : Preset}

/-! ## Orphans -/

namespace Orphans

variable {orphans : Orphans p} {receipts : List (Received p)}

/-- A block that releases nothing changes nothing. -/
theorem Holds.release_eq_self (h : orphans.Holds receipts) (rules : ChainRules p)
    {block : BeaconBlock p} (hnone : (orphans.release rules block).1 = []) :
    (orphans.release rules block).2.1 = orphans := by
  cases htracks : orphans.tracks (p.epochAt block.slot) with
  | false => rw [release_outside rules orphans htracks]
  | true =>
    obtain ⟨numbered, hrep, -⟩ := h.simulates.arrivals
    obtain ⟨hreleased, hrest⟩ := release_tracked rules htracks
    rw [hrest, hrep.evict_eq_self (hreleased.symm.trans hnone)]

/-- Between them, two roots take out the same arrivals in either order. -/
theorem filter_root_append_perm (receipts : List (Received p)) (root root' : Root) :
    (receipts.filter (·.root = root) ++
        (receipts.filter (·.root ≠ root)).filter (·.root = root')).Perm
      (receipts.filter (·.root = root') ++
        (receipts.filter (·.root ≠ root')).filter (·.root = root)) := by
  by_cases heq : root = root'
  · rw [heq]
  · have hother : ∀ {a b : Root}, a ≠ b → (receipts.filter (·.root ≠ a)).filter (·.root = b) =
        receipts.filter (·.root = b) := by
      intro a b hne
      rw [List.filter_filter]
      apply List.filter_congr
      intro r _
      rw [Bool.and_eq_left_iff_imp, decide_eq_true_eq, decide_eq_true_eq]
      exact fun hroot hsame => hne (hsame.symm.trans hroot)
    rw [hother heq, hother (Ne.symm heq)]
    exact List.perm_append_comm

theorem Holds.release_release (h : orphans.Holds receipts) (rules : ChainRules p)
    (first second : BeaconBlock p) :
    ((orphans.release rules first).2.1.release rules second).2.1 =
        ((orphans.release rules second).2.1.release rules first).2.1 ∧
      ((orphans.release rules first).1 ++
          ((orphans.release rules first).2.1.release rules second).1).Perm
        ((orphans.release rules second).1 ++
          ((orphans.release rules second).2.1.release rules first).1) := by
  cases htracks : orphans.tracks (p.epochAt first.slot) with
  | false =>
    have hlater := (orphans.tracks_release rules second (p.epochAt first.slot)).trans htracks
    rw [release_outside rules orphans htracks, release_outside rules _ hlater, List.append_nil]
    exact ⟨rfl, .refl _⟩
  | true =>
    have hlater := (orphans.tracks_release rules second (p.epochAt first.slot)).trans htracks
    cases htracks' : orphans.tracks (p.epochAt second.slot) with
    | false =>
      have hlater' := (orphans.tracks_release rules first (p.epochAt second.slot)).trans htracks'
      rw [release_outside rules orphans htracks', release_outside rules _ hlater', List.append_nil]
      exact ⟨rfl, .refl _⟩
    | true =>
      have hlater' := (orphans.tracks_release rules first (p.epochAt second.slot)).trans htracks'
      constructor
      · obtain ⟨numbered, hrep, -⟩ := h.simulates.arrivals
        rw [(release_tracked rules hlater').2, (release_tracked rules hlater).2,
          (release_tracked rules htracks).2, (release_tracked rules htracks').2,
          hrep.evict_evict]
      · obtain ⟨hreleased, hrest⟩ := h.release rules htracks
        obtain ⟨hreleased', hrest'⟩ := h.release rules htracks'
        rw [(hrest.release rules hlater').1, (hrest'.release rules hlater).1, hreleased,
          hreleased']
        exact filter_root_append_perm ..

end Orphans

/-! ## Pools -/

namespace Pool

open Std (ExtTreeSet)

variable {pool : Pool p}

theorem add_fst (pool : Pool p) (a : Attestation p) : (pool.add a).1 =
    if a.data.target.epoch < pool.threshold then .stale
    else if (pool.buckets.getD a.data.target.epoch ∅).contains a then .duplicate else .pooled := by
  simp only [add, apply_ite Prod.fst]

/-- What becomes of an attestation does not depend on another one that came before it. -/
theorem add_fst_add (pool : Pool p) {a b : Attestation p} (hne : a ≠ b) :
    ((pool.add b).2.add a).1 = (pool.add a).1 := by
  have hcontains : ((pool.add b).2.buckets.getD a.data.target.epoch ∅).contains a =
      (pool.buckets.getD a.data.target.epoch ∅).contains a := by
    rw [Bool.eq_iff_iff, ExtTreeSet.contains_iff_mem, ExtTreeSet.contains_iff_mem,
      ← ExtTreeSet.mem_toList, ← ExtTreeSet.mem_toList]
    exact (mem_targeting_add ..).trans (or_iff_left fun hsame => hne hsame.1)
  rw [add_fst, add_fst, threshold_add, hcontains]

theorem WellFormed.add_add (h : pool.WellFormed) (a b : Attestation p) :
    ((pool.add a).2.add b).2 = ((pool.add b).2.add a).2 :=
  h.run_submits_congr fun _ => (List.Perm.swap b a []).mem_iff

end Pool

/-! ## Released attestations -/

namespace Intake

theorem addCounted_comm {intake : Intake p} (h : intake.pool.WellFormed) (a b : Attestation p) :
    (intake.addCounted a).addCounted b = (intake.addCounted b).addCounted a := by
  by_cases heq : a = b
  · rw [heq]
  · have hcount : ∀ first second : Outcome,
        (Tally.countOutcome · second.label) ∘ (Tally.countOutcome · first.label) =
          (Tally.countOutcome · first.label) ∘ (Tally.countOutcome · second.label) := by
      intro first second
      funext tally
      exact tally.countOutcome_comm first second
    simp only [addCounted, addToPool, countOutcome, Pool.add_fst_add _ heq,
      Pool.add_fst_add _ (Ne.symm heq), h.add_add a b, Option.map_map]
    rw [hcount]

theorem addReleased_perm {intake : Intake p} (h : intake.pool.WellFormed)
    {released released' : List (Received p)} (hperm : released.Perm released') :
    addReleased intake released = addReleased intake released' := by
  rw [addReleased_eq_foldl, addReleased_eq_foldl]
  have hperm := hperm.map (·.attestation)
  generalize released.map (·.attestation) = list, released'.map (·.attestation) = list' at hperm ⊢
  induction hperm generalizing intake with
  | nil => rfl
  | cons a _ ih => exact ih (h.add a)
  | swap a b rest => simp only [List.foldl_cons, addCounted_comm h b a]
  | trans _ _ ih ih' => exact (ih h).trans (ih' h)

/-! ## Tallies -/

/-- Makes these lengths known, whatever those of pool and orphans are. -/
def publish (intake : Intake p) (counts : ShownCounts) : Intake p :=
  { intake with
    shown := counts
    tally := intake.tally.map (·.setLengths counts) }

theorem publishLengths_eq (intake : Intake p) :
    intake.publishLengths = intake.publish ⟨intake.pool.size, intake.orphans.size⟩ := rfl

/-- Of lengths that were made known, nothing is left when others are. -/
theorem publishLengths_publish (intake : Intake p) (counts : ShownCounts) :
    (intake.publish counts).publishLengths = intake.publishLengths := by
  rw [publishLengths_eq, publishLengths_eq]
  obtain ⟨pool, orphans, _ | tally, shown⟩ := intake
  · rfl
  · simp only [publish, Option.map_some, Tally.setLengths_setLengths]

theorem countTime_publish (intake : Intake p) (operation : String) (counts : ShownCounts) :
    (intake.publish counts).countTime operation = (intake.countTime operation).publish counts := by
  obtain ⟨pool, orphans, _ | tally, shown⟩ := intake
  · rfl
  · simp only [publish, countTime, Option.map_some]
    rw [Tally.countTime_setLengths]

theorem addCounted_publish (intake : Intake p) (counts : ShownCounts) (a : Attestation p) :
    (intake.publish counts).addCounted a = (intake.addCounted a).publish counts := by
  obtain ⟨pool, orphans, _ | tally, shown⟩ := intake
  · rfl
  · simp only [publish, addCounted, addToPool, countOutcome, Option.map_some]
    rw [Tally.countOutcome_setLengths]

theorem addCounted_countTime (intake : Intake p) (operation : String) (a : Attestation p) :
    (intake.countTime operation).addCounted a = (intake.addCounted a).countTime operation := by
  obtain ⟨_, _, _ | tally, _⟩ := intake <;> rfl

/-! ## Two imports -/

def withOrphans (intake : Intake p) (orphans : Orphans p) : Intake p := { intake with orphans }

theorem withOrphans_eq_self {intake : Intake p} {orphans : Orphans p}
    (h : intake.orphans = orphans) : intake.withOrphans orphans = intake := by
  subst h
  rfl

theorem addCounted_withOrphans (intake : Intake p) (orphans : Orphans p) (a : Attestation p) :
    (intake.withOrphans orphans).addCounted a = (intake.addCounted a).withOrphans orphans := rfl

/-- What an import does with the receipts that the orphans have released. -/
def takeIn (intake : Intake p) (released : List (Received p)) : Intake p :=
  let moved := (addReleased intake released).countTime "on_block_imported"
  if released.isEmpty then moved else moved.publishLengths

theorem importBlock_takeIn (rules : ChainRules p) (intake : Intake p) (block : BeaconBlock p) :
    (importBlock rules intake block).2.1 =
      (intake.withOrphans (intake.orphans.release rules block).2.1).takeIn
        (intake.orphans.release rules block).1 := rfl

theorem takeIn_nil (intake : Intake p) :
    intake.takeIn [] = intake.countTime "on_block_imported" := rfl

theorem takeIn_of_ne_nil (intake : Intake p) {released : List (Received p)} (hne : released ≠ []) :
    intake.takeIn released =
      ((addReleased intake released).countTime "on_block_imported").publishLengths :=
  if_neg (mt List.isEmpty_iff.mp hne)

theorem takeIn_publish (intake : Intake p) (counts : ShownCounts) {released : List (Received p)}
    (hne : released ≠ []) : (intake.publish counts).takeIn released = intake.takeIn released := by
  rw [takeIn_of_ne_nil _ hne, takeIn_of_ne_nil _ hne,
    addReleased_hom fun intake => intake.addCounted_publish counts, countTime_publish,
    publishLengths_publish]

/-- Lengths that the first import made known are made known anew by the second one. -/
theorem takeIn_takeIn (intake : Intake p) (orphans : Orphans p) (first : List (Received p))
    {second : List (Received p)} (hne : second ≠ []) :
    ((intake.takeIn first).withOrphans orphans).takeIn second =
      ((intake.withOrphans orphans).takeIn (first ++ second)).countTime "on_block_imported" := by
  -- Only where the first import released something did it make lengths known.
  have hlengths : ((intake.takeIn first).withOrphans orphans).takeIn second =
      (((addReleased intake first).countTime "on_block_imported").withOrphans orphans).takeIn
        second := by
    by_cases hfirst : first = []
    · rw [hfirst]
      rfl
    · rw [takeIn_of_ne_nil intake hfirst, publishLengths_eq]
      exact takeIn_publish (withOrphans _ orphans) _ hne
  have horphans : ((addReleased intake first).countTime "on_block_imported").withOrphans orphans =
      (addReleased (intake.withOrphans orphans) first).countTime "on_block_imported" := by
    rw [addReleased_hom fun intake => intake.addCounted_withOrphans orphans]
    rfl
  have happend : addReleased (intake.withOrphans orphans) (first ++ second) =
      addReleased (addReleased (intake.withOrphans orphans) first) second := List.foldl_append
  rw [hlengths, horphans, takeIn_of_ne_nil _ hne,
    takeIn_of_ne_nil _ (List.append_ne_nil_of_right_ne_nil first hne),
    addReleased_hom fun intake => intake.addCounted_countTime "on_block_imported", happend,
    publishLengths_eq, publishLengths_eq, countTime_publish]
  rfl

theorem takeIn_perm {intake : Intake p} (h : intake.pool.WellFormed)
    {released released' : List (Received p)} (hperm : released.Perm released') :
    intake.takeIn released = intake.takeIn released' := by
  rw [takeIn, takeIn, addReleased_perm h hperm, hperm.isEmpty_eq]

/-- Two imports are one release of all that they release. -/
theorem WellFormed.importBlock_importBlock {intake : Intake p} (h : intake.WellFormed)
    (rules : ChainRules p) (first second : BeaconBlock p) :
    let once := intake.orphans.release rules first
    let twice := once.2.1.release rules second
    (importBlock rules (importBlock rules intake first).2.1 second).2.1 =
        ((intake.withOrphans twice.2.1).takeIn (once.1 ++ twice.1)).countTime
          "on_block_imported" ∧
      (importBlock rules (importBlock rules intake first).2.1 second).1 = twice.1.length := by
  intro once twice
  obtain ⟨receipts, hholds⟩ := h.orphans
  obtain ⟨receipts', hholds'⟩ := hholds.exists_release rules first
  have horphans : (importBlock rules intake first).2.1.orphans = once.2.1 :=
    (importBlock_eq rules intake first).2
  refine ⟨?_, by rw [importBlock, horphans]⟩
  rw [importBlock_takeIn, horphans]
  -- Without a second release the lengths stay as they were made known, and so do the orphans.
  by_cases hnone : twice.1 = []
  · have hsame : twice.2.1 = once.2.1 := hholds'.release_eq_self rules hnone
    rw [hnone, hsame, takeIn_nil, List.append_nil, withOrphans_eq_self horphans,
      importBlock_takeIn]
  · exact takeIn_takeIn _ twice.2.1 once.1 hnone

theorem WellFormed.importBlock_comm {intake : Intake p} (h : intake.WellFormed)
    (rules : ChainRules p) (first second : BeaconBlock p) :
    (importBlock rules (importBlock rules intake first).2.1 second).2.1 =
        (importBlock rules (importBlock rules intake second).2.1 first).2.1 ∧
      (importBlock rules intake first).1 +
          (importBlock rules (importBlock rules intake first).2.1 second).1 =
        (importBlock rules intake second).1 +
          (importBlock rules (importBlock rules intake second).2.1 first).1 := by
  obtain ⟨receipts, hholds⟩ := h.orphans
  obtain ⟨hsame, hperm⟩ := hholds.release_release rules first second
  obtain ⟨hfirst, hcount⟩ := h.importBlock_importBlock rules first second
  obtain ⟨hsecond, hcount'⟩ := h.importBlock_importBlock rules second first
  constructor
  · rw [hfirst, hsecond, hsame]
    have hpool : (intake.withOrphans
        ((intake.orphans.release rules second).2.1.release rules first).2.1).pool.WellFormed :=
      h.pool
    rw [takeIn_perm hpool hperm]
  · rw [hcount, hcount']
    have hlength := hperm.length_eq
    rw [List.length_append, List.length_append] at hlength
    exact hlength

/-! ## Runs -/

/-- The imports of blocks, one after the other: the sum of what they return, and the intake in the
end. -/
def importAll (rules : ChainRules p) : Intake p → List (BeaconBlock p) → Nat × Intake p
  | intake, [] => (0, intake)
  | intake, block :: rest =>
      let (count, after, _) := importBlock rules intake block
      let (total, last) := importAll rules after rest
      (count + total, last)

theorem WellFormed.importAll_perm {intake : Intake p} (h : intake.WellFormed)
    (rules : ChainRules p) {blocks blocks' : List (BeaconBlock p)} (hperm : blocks.Perm blocks') :
    importAll rules intake blocks = importAll rules intake blocks' := by
  induction hperm generalizing intake with
  | nil => rfl
  | cons block _ ih =>
    have hafter : (importBlock rules intake block).2.1.WellFormed :=
      h.step rules (.importBlock block : IntakeEvent LaggingStore p)
    simp only [importAll, ih hafter]
  | swap second first rest =>
    obtain ⟨hafter, hcounts⟩ := h.importBlock_comm rules first second
    simp only [importAll, hafter]
    rw [← Nat.add_assoc, hcounts, Nat.add_assoc]
  | trans _ _ ih ih' => exact (ih h).trans (ih' h)

/-- Blocks that are imported in a row leave the same intake in every order, with its pool, its
orphans and all that is counted, and release as many receipts in all. -/
theorem run_importAll_perm {σ : Type} [BlockStore σ] {p : Preset} (rules : ChainRules p)
    (settings : Settings) (start : Epoch) (tally : Option Tally) (events : List (IntakeEvent σ p))
    {blocks blocks' : List (BeaconBlock p)} (hperm : blocks.Perm blocks') :
    let intake := (new settings start tally).run rules events
    importAll rules intake blocks = importAll rules intake blocks' :=
  ((wellFormed_new settings start tally).run rules events).importAll_perm rules hperm

/-- Two blocks release one receipt each, and a third one has the root of the first but lies outside
the window. -/
theorem run_importAll_perm_of_late_block :
    let vote (root : Nat) : Received .minimal :=
      { attestation.data := { target := { epoch := 10 }, beaconBlockRoot := .ofNat 32 root } }
    let block (slot : Slot) (root : Nat) : BeaconBlock .minimal :=
      { slot, stateRoot := .ofNat 32 root }
    let rules : ChainRules .minimal := .rejecting []
    let events : List (IntakeEvent LaggingStore .minimal) :=
      [.tick 80, .submit {} (vote 1), .submit {} (vote 2)]
    let blocks := [block 80 1, block 81 2, block 0 1]
    let blocks' := [block 81 2, block 0 1, block 80 1]
    let intake := (new {} 10 (some {})).run rules events
    blocks.Perm blocks' ∧ importAll rules intake blocks = importAll rules intake blocks' := by
  intro vote block rules events blocks blocks'
  have hperm : blocks.Perm blocks' := (List.perm_append_comm : ([_] ++ [_, _]).Perm _)
  exact ⟨hperm, run_importAll_perm rules {} 10 (some {}) events hperm⟩

end Intake

end AttestationIntake
