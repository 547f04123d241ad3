import AttestationIntake.Proofs.Intake.Alignment
import AttestationIntake.Proofs.Intake.Overlap
import AttestationIntake.Proofs.Orphans.Entries

/-!
What the import of a block means for the attestations that vote for it. From then on none of them
waits, provided that the store has the block as well. And it does not matter which of them came
before the import and which come after it: what waited is taken over, and pool and orphans are the
same in the end.
-/

namespace AttestationIntake.Intake

open Orphans (SameWindow)

variable {σ : Type} {p : Preset} [BlockStore σ] {intake : Intake p}

/-! ## After the import -/

/-- No attestation waits for a block. -/
def Cleared (intake : Intake p) (root : Root) : Prop :=
  ∀ a ∈ intake.orphans.attestations, a.data.beaconBlockRoot ≠ root

/-- If an event asks a store for the block with this root, the store has it. -/
def Serves (root : Root) : IntakeEvent σ p → Prop
  | .submit store r => r.root = root → (BlockStore.lookup store root).1 = true
  | _ => True

theorem WellFormed.cleared_importBlock (h : intake.WellFormed) (rules : ChainRules p)
    {block : BeaconBlock p} (htracks : intake.orphans.tracks (p.epochAt block.slot) = true) :
    (intake.step rules (.importBlock block : IntakeEvent σ p)).Cleared (rules.blockRoot block) := by
  intro a ha hroot
  rcases h.mem_orphans_step rules ha with ⟨-, hkept⟩ | hsubmits
  · exact hkept ⟨htracks, hroot⟩
  · exact hsubmits

theorem Cleared.step {root : Root} (h : intake.Cleared root) (hwf : intake.WellFormed)
    (rules : ChainRules p) {event : IntakeEvent σ p} (hserves : Serves root event) :
    (intake.step rules event).Cleared root := by
  intro a ha hroot
  rcases hwf.mem_orphans_step rules ha with ⟨hbefore, -⟩ | hsubmits
  · exact h a hbefore hroot
  · cases event with
    | submit store r =>
      obtain ⟨rfl, hunknown⟩ := hsubmits
      have hknown : (BlockStore.lookup store r.root).1 = true := by
        rw [show r.root = root from hroot]
        exact hserves hroot
      cases (finds_of_known hknown intake).symm.trans hunknown
    | tick slot => exact hsubmits
    | importBlock block => exact hsubmits

theorem Cleared.run {root : Root} (h : intake.Cleared root) (hwf : intake.WellFormed)
    (rules : ChainRules p) {events : List (IntakeEvent σ p)}
    (hserves : ∀ event ∈ events, Serves root event) : (intake.run rules events).Cleared root := by
  induction events generalizing intake with
  | nil => exact h
  | cons event rest ih =>
    rw [List.forall_mem_cons] at hserves
    exact ih (h.step hwf rules hserves.1) (hwf.step rules event) hserves.2

/-- A submission whose block is known is answered by the pool. -/
theorem submit_answer_of_known {store : σ} {r : Received p}
    (hknown : (BlockStore.lookup store r.root).1 = true) :
    (intake.submit store r).1 = .ok .pooled ∨ (intake.submit store r).1 = .ok .duplicate ∨
      (intake.submit store r).1 = .ok .stale := by
  rw [(submit_of_finds (finds_of_known hknown intake)).1]
  rcases intake.pool.add_cases r.attestation with ⟨-, hadd⟩ | ⟨-, -, hadd⟩ | ⟨-, -, hadd⟩ <;>
    rw [hadd]
  · exact .inr (.inr rfl)
  · exact .inr (.inl rfl)
  · exact .inl rfl

/-- Once a block of the window has been imported, and if the store has it from then on, no
attestation waits for it, whatever happens, and each that comes is answered by the pool. -/
theorem run_cleared (rules : ChainRules p) (settings : Settings) (start : Epoch)
    (tally : Option Tally) (before after : List (IntakeEvent σ p)) (block : BeaconBlock p)
    (htracks : ((new settings start tally).run rules before).orphans.tracks
      (p.epochAt block.slot) = true)
    (hknown : ∀ event ∈ after, Serves (rules.blockRoot block) event) :
    let final := (new settings start tally).run rules (before ++ .importBlock block :: after)
    (∀ r ∈ final.orphans.index.values,
        r.attestation.data.beaconBlockRoot ≠ rules.blockRoot block) ∧
      ∀ (store : σ) (r : Received p),
        r.attestation.data.beaconBlockRoot = rules.blockRoot block →
        (BlockStore.lookup store r.attestation.data.beaconBlockRoot).1 = true →
        (final.submit store r).1 = .ok .pooled ∨ (final.submit store r).1 = .ok .duplicate ∨
          (final.submit store r).1 = .ok .stale := by
  have hwf := (wellFormed_new settings start tally).run rules before
  have himport := hwf.cleared_importBlock (σ := σ) rules htracks
  have hafter := himport.run (hwf.step rules _) rules hknown
  intro final
  have hfinal : final.Cleared (rules.blockRoot block) := by
    rw [show final = _ from run_append ..]
    exact hafter
  constructor
  · intro r hr
    exact hfinal r.attestation (List.mem_map_of_mem hr)
  · intro store r _ hstore
    exact submit_answer_of_known hstore

/-- The attestation that was filed before the import comes again after it. -/
theorem run_cleared_of_redelivery :
    let r : Received .minimal := { attestation := { data := { target := { epoch := 10 } } } }
    let store : LaggingStore := {}
    let before : List (IntakeEvent LaggingStore .minimal) := [.tick 80, .submit store r]
    let block : BeaconBlock .minimal := { slot := 80 }
    let after : List (IntakeEvent LaggingStore .minimal) := [.submit (store.know .zero) r, .tick 81]
    let rules : ChainRules .minimal := .rejecting []
    let final := (new {} 10 none).run rules (before ++ .importBlock block :: after)
    (((new {} 10 none).run rules before).orphans.tracks (Preset.minimal.epochAt block.slot) = true ∧
        ∀ event ∈ after, Serves (rules.blockRoot block) event) ∧
      (∀ r ∈ final.orphans.index.values,
        r.attestation.data.beaconBlockRoot ≠ rules.blockRoot block) ∧
      ∀ (store : LaggingStore) (r : Received .minimal),
        r.attestation.data.beaconBlockRoot = rules.blockRoot block →
        (BlockStore.lookup store r.attestation.data.beaconBlockRoot).1 = true →
        (final.submit store r).1 = .ok .pooled ∨ (final.submit store r).1 = .ok .duplicate ∨
          (final.submit store r).1 = .ok .stale := by
  intro r store before block after rules
  have htracks : ((new {} 10 none).run rules before).orphans.tracks
      (Preset.minimal.epochAt block.slot) = true := by decide +kernel
  have hstore : (BlockStore.lookup (store.know .zero) r.root).1 = true := by decide
  have hknown : ∀ event ∈ after, Serves (rules.blockRoot block) event :=
    List.forall_mem_cons.mpr ⟨fun _ => hstore, List.forall_mem_singleton.mpr trivial⟩
  exact ⟨⟨htracks, hknown⟩, run_cleared rules {} 10 none before after block htracks hknown⟩

/-! ## Before or after the import -/

/-- A store does not have a block, and does not find it either when it is asked once more. -/
def Lacks (store : σ) (root : Root) : Prop :=
  (BlockStore.lookup store root).1 = false ∧
    (BlockStore.lookup (BlockStore.lookup store root).2 root).1 = false

/-- Receipts that come in one after the other, each with the store as it is then. -/
def submissions (list : List (σ × Received p)) : List (IntakeEvent σ p) :=
  list.map fun (store, received) => .submit store received

/-- The receipts of a list come in around the import of a block: some in any order before it, when
the store does not have the block, and the others in any order after it, when the store has it. -/
inductive AroundImport (block : BeaconBlock p) (list : List (Received p)) :
    List (IntakeEvent σ p) → Prop
  | intro (early late : List (σ × Received p)) (hperm : ((early ++ late).map (·.2)).Perm list)
      (hearly : ∀ s ∈ early, Lacks s.1 s.2.attestation.data.beaconBlockRoot)
      (hlate : ∀ s ∈ late, (BlockStore.lookup s.1 s.2.attestation.data.beaconBlockRoot).1 = true) :
      AroundImport block list (submissions early ++ .importBlock block :: submissions late)

/-- All receipts of a list are for a block of the window and can wait for it, and there is room for
all of them at once. -/
structure CanWait (rules : ChainRules p) (intake : Intake p) (block : BeaconBlock p)
    (list : List (Received p)) : Prop where
  tracks_block : intake.orphans.tracks (p.epochAt block.slot) = true
  root_eq : ∀ r ∈ list, r.attestation.data.beaconBlockRoot = rules.blockRoot block
  tracks_target : ∀ r ∈ list, intake.orphans.tracks r.attestation.data.target.epoch = true
  room : list.length + intake.orphans.size ≤ intake.orphans.index.capacity.toNat

/-- The same receipts wait in the same window, in the same order of arrival and of reading. -/
structure SameOrphans (orphans orphans' : Orphans p) : Prop where
  window : SameWindow orphans orphans'
  receipts_eq : orphans.entries.map (·.receipt) = orphans'.entries.map (·.receipt)
  values_eq : orphans.index.values = orphans'.index.values
  size_eq : orphans.size = orphans'.size

theorem sameOrphans_of_holds {orphans orphans' : Orphans p} {receipts : List (Received p)}
    (hwindow : SameWindow orphans orphans') (h : orphans.Holds receipts)
    (h' : orphans'.Holds receipts) : SameOrphans orphans orphans' where
  window := hwindow
  receipts_eq := by rw [h.receipts_entries, h'.receipts_entries]
  values_eq := by rw [h.values_eq, h'.values_eq]
  size_eq := by rw [h.size_eq, h'.size_eq]

theorem Lacks.finds_eq {store : σ} {root : Root} (h : Lacks store root) (intake : Intake p) :
    intake.finds store root = false := by
  rw [finds, h.1, h.2, Bool.and_false, Bool.or_false]

/-- While there is room, receipts whose block is unknown wait behind the others, those that are new.
Nothing else changes. -/
theorem run_unknown (rules : ChainRules p) {receipts : List (Received p)}
    (hholds : intake.orphans.Holds receipts) {list : List (σ × Received p)}
    (hlacks : ∀ s ∈ list, Lacks s.1 s.2.root)
    (htracks : ∀ s ∈ list, intake.orphans.tracks s.2.target = true)
    (hroom : list.length + receipts.length ≤ intake.orphans.index.capacity.toNat) :
    (intake.run rules (submissions list)).pool = intake.pool ∧
      ∃ more, (intake.run rules (submissions list)).orphans.Holds (receipts ++ more) ∧
        more ⊆ list.map (·.2) ∧ list.map (·.2) ⊆ receipts ++ more := by
  induction list generalizing intake receipts with
  | nil => exact ⟨rfl, [], by rwa [List.append_nil], by simp, by simp⟩
  | cons first rest ih =>
    obtain ⟨store, r⟩ := first
    simp only [List.forall_mem_cons] at hlacks htracks
    rw [List.length_cons] at hroom
    obtain ⟨-, hpool, horphans⟩ := submit_of_tracks (hlacks.1.finds_eq intake) htracks.1
    have hfile := hholds.file_of_room htracks.1 (by omega)
    rw [← horphans] at hfile
    have hother : ∀ slot, IntakeEvent.submit store r ≠ .tick slot := nofun
    have hwindow := intake.sameWindow_step rules hother
    have htracks' : ∀ s ∈ rest, (intake.submit store r).2.1.orphans.tracks s.2.target = true := by
      intro s hs
      rw [← htracks.2 s hs]
      exact (hwindow.tracks_eq _).symm
    have hcapacity : intake.orphans.index.capacity =
      (intake.submit store r).2.1.orphans.index.capacity := hwindow.capacity_eq
    rw [hcapacity] at hroom
    by_cases hold : r ∈ receipts
    · rw [if_pos hold, List.append_nil] at hfile
      obtain ⟨hpools, more, hmore, hsubset, hall⟩ := ih hfile hlacks.2 htracks' (by omega)
      refine ⟨hpools.trans hpool, more, hmore, List.subset_cons_of_subset _ hsubset, ?_⟩
      exact List.cons_subset.mpr ⟨List.mem_append_left _ hold, hall⟩
    · rw [if_neg hold] at hfile
      obtain ⟨hpools, more, hmore, hsubset, hall⟩ := ih hfile hlacks.2 htracks' (by
        rw [List.length_append, List.length_singleton]
        omega)
      rw [List.append_assoc, List.singleton_append] at hmore hall
      refine ⟨hpools.trans hpool, r :: more, hmore, List.cons_subset_cons _ hsubset, ?_⟩
      exact List.cons_subset.mpr ⟨by simp, hall⟩

theorem run_known (rules : ChainRules p) (intake : Intake p) {list : List (σ × Received p)}
    (hknown : ∀ s ∈ list, (BlockStore.lookup s.1 s.2.root).1 = true) :
    (intake.run rules (submissions list)).pool =
        intake.pool.run ((list.map (·.2.attestation)).map .submit) ∧
      (intake.run rules (submissions list)).orphans = intake.orphans := by
  induction list generalizing intake with
  | nil => exact ⟨rfl, rfl⟩
  | cons first rest ih =>
    obtain ⟨store, r⟩ := first
    rw [List.forall_mem_cons] at hknown
    obtain ⟨-, hpool, horphans⟩ := submit_of_finds (finds_of_known hknown.1 intake)
    obtain ⟨hpools, hsame⟩ := ih (intake.submit store r).2.1 hknown.2
    refine ⟨?_, hsame.trans horphans⟩
    rw [hpool] at hpools
    exact hpools

/-- The pool takes in what waited for a block, and then what comes for it. -/
theorem run_importBlock_known (rules : ChainRules p) {receipts : List (Received p)}
    (hholds : intake.orphans.Holds receipts) {block : BeaconBlock p}
    (htracks : intake.orphans.tracks (p.epochAt block.slot) = true) {list : List (σ × Received p)}
    (hknown : ∀ s ∈ list, (BlockStore.lookup s.1 s.2.root).1 = true) :
    (intake.run rules (.importBlock block :: submissions list)).pool =
        intake.pool.run (((receipts.filter (·.root = rules.blockRoot block) ++
          list.map (·.2)).map (·.attestation)).map .submit) ∧
      (intake.run rules (.importBlock block :: submissions list)).orphans.Holds
        (receipts.filter (·.root ≠ rules.blockRoot block)) := by
  obtain ⟨hreleased, hrest⟩ := hholds.release rules htracks
  obtain ⟨hpool, horphans⟩ := importBlock_eq rules intake block
  obtain ⟨hpools, hsame⟩ := run_known rules (importBlock rules intake block).2.1 hknown
  rw [hpool, hreleased] at hpools
  rw [horphans] at hsame
  constructor
  · rw [List.map_append, List.map_append, List.map_map (l := list), Pool.run, List.foldl_append]
    exact hpools
  · rw [← hsame] at hrest
    exact hrest

/-- What waits at the import, early receipts and others, and what comes later are together what
waited anyway and all of the list. -/
theorem mem_taken_iff {list receipts more early late : List (Received p)} {root : Root}
    (hperm : (early ++ late).Perm list) (hroot : ∀ r ∈ early, r.root = root) (hmore : more ⊆ early)
    (hall : early ⊆ receipts ++ more) (r : Received p) :
    r ∈ (receipts ++ more).filter (·.root = root) ++ late ↔
      r ∈ receipts.filter (·.root = root) ++ list := by
  simp only [List.mem_append, List.mem_filter, decide_eq_true_eq, ← hperm.mem_iff]
  constructor
  · rintro (⟨hr | hr, hblock⟩ | hr)
    · exact .inl ⟨hr, hblock⟩
    · exact .inr (.inl (hmore hr))
    · exact .inr (.inr hr)
  -- An early receipt waits, even if it had been waiting before.
  · rintro (⟨hr, hblock⟩ | hr | hr)
    · exact .inl ⟨.inl hr, hblock⟩
    · exact .inl ⟨List.mem_append.mp (hall hr), hroot r hr⟩
    · exact .inr hr

/-- However the receipts come in, the pool takes in those that waited and these, and what waits for
other blocks goes on waiting. -/
theorem AroundImport.run_eq {rules : ChainRules p} {block : BeaconBlock p}
    {list receipts : List (Received p)} {events : List (IntakeEvent σ p)}
    (h : AroundImport block list events) (hpool : intake.pool.WellFormed)
    (hholds : intake.orphans.Holds receipts) (hlist : CanWait rules intake block list) :
    (intake.run rules events).pool = intake.pool.run (((receipts.filter
        (·.root = rules.blockRoot block) ++ list).map (·.attestation)).map .submit) ∧
      (intake.run rules events).orphans.Holds
        (receipts.filter (·.root ≠ rules.blockRoot block)) ∧
      SameWindow intake.orphans (intake.run rules events).orphans := by
  have hwindow : SameWindow intake.orphans (intake.run rules events).orphans := by
    apply sameWindow_run
    obtain ⟨early, late⟩ := h
    simp [submissions]
  obtain ⟨early, late, hperm, hearly, hlate⟩ := h
  rw [List.map_append] at hperm
  have hroom := hlist.room
  rw [hholds.size_eq, ← hperm.length_eq, List.length_append, List.length_map] at hroom
  have htracks : ∀ s ∈ early, intake.orphans.tracks s.2.target = true := by
    intro s hs
    exact hlist.tracks_target _ (hperm.subset (List.mem_append_left _ (List.mem_map_of_mem hs)))
  obtain ⟨hsame, more, hwaits, hmore, hall⟩ := run_unknown rules hholds hearly htracks (by omega)
  have hblock : (intake.run rules (submissions early)).orphans.tracks (p.epochAt block.slot) =
      true := by
    rw [← hlist.tracks_block]
    exact ((sameWindow_run rules intake (by simp [submissions])).tracks_eq _).symm
  obtain ⟨hfinal, hrest⟩ := run_importBlock_known rules hwaits hblock hlate
  rw [hsame] at hfinal
  have hroot : ∀ r ∈ early.map (·.2), r.root = rules.blockRoot block := by
    intro r hr
    exact hlist.root_eq r (hperm.subset (List.mem_append_left _ hr))
  refine ⟨?_, ?_, hwindow⟩ <;> rw [run_append]
  · have hmem := mem_taken_iff hperm hroot hmore hall
    rw [hfinal]
    apply hpool.run_submits_congr
    simp only [List.mem_map, hmem, implies_true]
  -- All that is new among those that wait is for the block.
  · have hnone : more.filter (·.root ≠ rules.blockRoot block) = [] := by
      rw [List.filter_eq_nil_iff]
      intro r hr
      simpa using hroot r (hmore hr)
    rwa [List.filter_append, hnone, List.append_nil] at hrest

/-- It does not matter which receipts come before the import of their block and which after it, nor
in which order: pool and orphans are the same in the end, so the same is given out for every state,
and nothing waits for the block. -/
theorem run_eq_of_aroundImport (rules : ChainRules p) (settings : Settings) (start : Epoch)
    (tally : Option Tally) (before : List (IntakeEvent σ p)) {block : BeaconBlock p}
    {list : List (Received p)}
    (hlist : CanWait rules ((new settings start tally).run rules before) block list)
    {events events' : List (IntakeEvent σ p)} (hevents : AroundImport block list events)
    (hevents' : AroundImport block list events') :
    let intake := (new settings start tally).run rules before
    let final := intake.run rules events
    let final' := intake.run rules events'
    final.pool = final'.pool ∧ SameOrphans final.orphans final'.orphans ∧
      (∀ (rules' : ChainRules p) (state : BeaconState p),
        (final.offChain? rules' state).1 = (final'.offChain? rules' state).1) ∧
      ∀ r ∈ final.orphans.index.values,
        r.attestation.data.beaconBlockRoot ≠ rules.blockRoot block := by
  intro intake final final'
  have hwf : intake.WellFormed := (wellFormed_new settings start tally).run rules before
  obtain ⟨receipts, hholds⟩ := hwf.orphans
  obtain ⟨hpool, hrest, hwindow⟩ := hevents.run_eq hwf.pool hholds hlist
  obtain ⟨hpool', hrest', hwindow'⟩ := hevents'.run_eq hwf.pool hholds hlist
  have hsame : final.pool = final'.pool := hpool.trans hpool'.symm
  refine ⟨hsame, sameOrphans_of_holds (hwindow.symm.trans hwindow') hrest hrest', ?_, ?_⟩
  · intro rules' state
    exact congrArg (·.offChain? rules' state) hsame
  · intro r hr
    have hr := (List.mem_filter.mp ((hrest.mem_values r).mp hr)).2
    exact of_decide_eq_true hr

/-- Two receipts of an attestation that waits already. Both come before the import, or one of them
after it. -/
theorem run_eq_of_late_receipt :
    let r : Received .minimal := { attestation := { data := { target := { epoch := 10 } } } }
    let later : Received .minimal := { r with receivedAt := 1 }
    let store : LaggingStore := {}
    let rules : ChainRules .minimal := .rejecting []
    let block : BeaconBlock .minimal := { slot := 80 }
    let intake := (new {} 10 none).run rules [.tick 80, .submit store r]
    let events : List (IntakeEvent LaggingStore .minimal) :=
      [.submit store later, .submit store r, .importBlock block]
    let events' : List (IntakeEvent LaggingStore .minimal) :=
      [.submit store r, .importBlock block, .submit (store.know .zero) later]
    let final := intake.run rules events
    let final' := intake.run rules events'
    (CanWait rules intake block [r, later] ∧ AroundImport block [r, later] events ∧
        AroundImport block [r, later] events') ∧
      final.pool = final'.pool ∧ SameOrphans final.orphans final'.orphans ∧
      (∀ (rules' : ChainRules .minimal) (state : BeaconState .minimal),
        (final.offChain? rules' state).1 = (final'.offChain? rules' state).1) ∧
      ∀ r ∈ final.orphans.index.values,
        r.attestation.data.beaconBlockRoot ≠ rules.blockRoot block := by
  intro r later store rules block
  have hlacks : Lacks store r.root := ⟨by decide, by decide⟩
  have hknown : (BlockStore.lookup (store.know .zero) later.root).1 = true := by decide
  have hlist : CanWait rules ((new {} 10 none).run rules [.tick 80, .submit store r]) block
      [r, later] :=
    { tracks_block := by decide +kernel
      root_eq := by simp [r, later, rules, block, ChainRules.rejecting]
      tracks_target := by decide +kernel
      room := by decide +kernel }
  have hevents : AroundImport block [r, later]
      [.submit store later, .submit store r, .importBlock block] :=
    .intro [(store, later), (store, r)] [] (.swap ..)
      (List.forall_mem_cons.mpr ⟨hlacks, List.forall_mem_singleton.mpr hlacks⟩) (by simp)
  have hevents' : AroundImport block [r, later]
      [.submit store r, .importBlock block, .submit (store.know .zero) later] :=
    .intro [(store, r)] [(store.know .zero, later)] (.refl _)
      (List.forall_mem_singleton.mpr hlacks) (List.forall_mem_singleton.mpr hknown)
  exact ⟨⟨hlist, hevents, hevents'⟩,
    run_eq_of_aroundImport rules {} 10 none _ hlist hevents hevents'⟩

end AttestationIntake.Intake
