import AttestationIntake.Proofs.Intake.ImportOrder
import AttestationIntake.Proofs.Intake.Refusals

/-!
What an intake makes known about itself is true. It makes lengths known only after what may have
changed them, and counts outcomes at two places, but whatever it passes over has changed nothing.
Every attestation that was pooled is in the pool or was pruned.
-/

namespace AttestationIntake

variable {σ : Type} {p : Preset}

namespace Tally

/-- How often an outcome was counted. -/
def outcomeCount (tally : Tally) (outcome : Outcome) : Nat :=
  tally.outcomes.value [("outcome", outcome.label)]

theorem outcomeCount_countOutcome (tally : Tally) (outcome outcome' : Outcome) :
    (tally.countOutcome outcome.label).outcomeCount outcome' =
      tally.outcomeCount outcome' + [outcome].count outcome' := by
  rw [outcomeCount, countOutcome, Family.count, Family.value_update]
  by_cases heq : outcome = outcome'
  · subst heq
    rw [if_pos rfl, List.count_singleton_self]
    rfl
  -- Different outcomes have different figures.
  · rw [if_neg (mt Outcome.key_injective heq), List.count_singleton, beq_eq_false_iff_ne.mpr heq]
    rfl

theorem length_setLength (tally : Tally) (type type' name name' : String) (length : Nat) :
    (tally.setLength type name length).length type' name' =
      if Family.key (lengthLabels type name) = Family.key (lengthLabels type' name') then
        min length maxLength
      else tally.length type' name' :=
  Family.value_update ..

end Tally

/-! ## Pools -/

namespace Pool

variable {pool : Pool p}

/-- What becomes of attestations that are added one after the other. -/
def outcomes : Pool p → List (Attestation p) → List Outcome
  | _, [] => []
  | pool, first :: rest => (pool.add first).1 :: outcomes (pool.add first).2 rest

theorem count_outcomes_cons (pool : Pool p) (first : Attestation p) (rest : List (Attestation p))
    (outcome : Outcome) : (pool.outcomes (first :: rest)).count outcome =
      [(pool.add first).1].count outcome + ((pool.add first).2.outcomes rest).count outcome := by
  show ([(pool.add first).1] ++ (pool.add first).2.outcomes rest).count outcome = _
  exact List.count_append

/-- The attestations that are there before a tick and not afterwards. -/
def pruned (pool : Pool p) (slot : Slot) : List (Attestation p) :=
  pool.attestations.filter fun a => !(pool.tick slot).1.attestations.contains a

theorem WellFormed.nodup_attestations (h : pool.WellFormed) : pool.attestations.Nodup :=
  nodup_of_ascending h.attestations_ascending

theorem WellFormed.attestations_put_perm (h : pool.WellFormed) {added : Attestation p}
    (hretained : pool.threshold ≤ added.data.target.epoch)
    (hnew : added ∉ pool.targeting added.data.target.epoch) :
    (pool.put added).attestations.Perm (added :: pool.attestations) := by
  have hafter := h.put hretained
  have hnew : added ∉ pool.attestations := mt (h.mem_attestations_iff added).mp hnew
  rw [List.perm_ext_iff_of_nodup hafter.nodup_attestations
    (List.nodup_cons.mpr ⟨hnew, h.nodup_attestations⟩)]
  intro a
  rw [hafter.mem_attestations_iff, mem_targeting_put, List.mem_cons, h.mem_attestations_iff,
    or_comm]
  refine or_congr_left (and_iff_left_of_imp ?_)
  rintro rfl
  rfl

/-- Only what is pooled makes a pool longer. -/
theorem WellFormed.size_add (h : pool.WellFormed) (a : Attestation p) :
    (pool.add a).2.size = pool.size + [(pool.add a).1].count .pooled := by
  rcases pool.add_cases a with ⟨-, hadd⟩ | ⟨-, -, hadd⟩ | ⟨hretained, hnew, hadd⟩ <;> rw [hadd]
  · rfl
  · rfl
  · rw [size_eq_length, size_eq_length, (h.attestations_put_perm hretained hnew).length_eq]
    rfl

theorem WellFormed.size_run_submits (h : pool.WellFormed) (list : List (Attestation p)) :
    (pool.run (list.map .submit)).size = pool.size + (pool.outcomes list).count .pooled := by
  induction list generalizing pool with
  | nil => rfl
  | cons first rest ih =>
    rw [count_outcomes_cons, ← Nat.add_assoc, ← h.size_add]
    exact ih (h.add first)

theorem WellFormed.size_tick (h : pool.WellFormed) (slot : Slot) :
    (pool.tick slot).1.size + (pool.pruned slot).length = pool.size := by
  have hafter := h.tick slot
  have hsubset : ∀ a ∈ (pool.tick slot).1.attestations, a ∈ pool.attestations := by
    intro a ha
    rw [hafter.mem_attestations_iff, h.mem_targeting_tick] at ha
    exact (h.mem_attestations_iff a).mpr ha.1
  have hkept : (pool.tick slot).1.attestations.Perm
      (pool.attestations.filter (pool.tick slot).1.attestations.contains) := by
    rw [List.perm_ext_iff_of_nodup hafter.nodup_attestations (h.nodup_attestations.filter _)]
    intro a
    rw [List.mem_filter, List.contains_iff_mem]
    exact (and_iff_right_of_imp (hsubset a)).symm
  have hparts := List.filter_append_perm (pool.tick slot).1.attestations.contains pool.attestations
  rw [size_eq_length, size_eq_length, hkept.length_eq, ← hparts.length_eq, List.length_append,
    pruned]

end Pool

namespace Intake

/-! ## Lengths -/

/-- The lengths of pool and orphans. -/
def sizes (intake : Intake p) : ShownCounts := ⟨intake.pool.size, intake.orphans.size⟩

/-- The lengths that were made known last are those of now. A tally keeps none above its greatest
length. -/
structure UpToDate (intake : Intake p) : Prop where
  shown_eq : intake.shown = intake.sizes
  pooled_eq : ∀ tally ∈ intake.tally,
    tally.length collectionType "pooled" = min intake.pool.size Tally.maxLength
  orphaned_eq : ∀ tally ∈ intake.tally,
    tally.length collectionType "orphaned" = min intake.orphans.size Tally.maxLength

theorem upToDate_new (settings : Settings) (start : Epoch) (registered : Bool) :
    (new settings start (some { registered }) : Intake p).UpToDate where
  shown_eq := rfl
  pooled_eq := by
    rintro tally ⟨⟩
    rfl
  orphaned_eq := by
    rintro tally ⟨⟩
    rfl

theorem upToDate_publishLengths (intake : Intake p) : intake.publishLengths.UpToDate := by
  have hkeys : Family.key (Tally.lengthLabels collectionType "orphaned") ≠
      Family.key (Tally.lengthLabels collectionType "pooled") := by decide +kernel
  refine ⟨rfl, ?_, ?_⟩
  · intro tally htally
    obtain ⟨before, -, rfl⟩ := Option.map_eq_some_iff.mp htally
    rw [Tally.length_setLength, if_neg hkeys, Tally.length_setLength, if_pos rfl]
    rfl
  · intro tally htally
    obtain ⟨before, -, rfl⟩ := Option.map_eq_some_iff.mp htally
    rw [Tally.length_setLength, if_pos rfl]
    rfl

theorem UpToDate.countTime {intake : Intake p} (h : intake.UpToDate) (operation : String) :
    (intake.countTime operation).UpToDate := by
  refine ⟨h.shown_eq, ?_, ?_⟩
  · intro tally htally
    obtain ⟨before, hbefore, rfl⟩ := Option.map_eq_some_iff.mp htally
    exact h.pooled_eq before hbefore
  · intro tally htally
    obtain ⟨before, hbefore, rfl⟩ := Option.map_eq_some_iff.mp htally
    exact h.orphaned_eq before hbefore

theorem route_frame [BlockStore σ] (intake : Intake p) (store : σ) (r : Received p) :
    ∃ pool orphans, (intake.route store r).2.1 = { intake with pool, orphans } := by
  rw [route]
  dsimp only
  split
  · exact ⟨_, _, rfl⟩
  · rcases intake.orphans.add (BlockStore.lookup store r.attestation.data.beaconBlockRoot).2 r with
      ⟨_ | _ | _ | _, _⟩ <;> exact ⟨_, _, rfl⟩

/-- An answer that is no refusal is counted, and lengths are made known after it. -/
theorem submit_accepted [BlockStore σ] {intake : Intake p} {store : σ} {r : Received p}
    {outcome : Outcome} (h : (intake.submit store r).1 = .ok outcome) :
    ∃ pool orphans, (intake.submit store r).2.1 =
      (({ intake with pool, orphans }.countTime "submit").countOutcome outcome).publishLengths := by
  obtain ⟨pool, orphans, hroute⟩ := intake.route_frame store r
  refine ⟨pool, orphans, ?_⟩
  rw [← hroute]
  rw [submit] at h ⊢
  rcases hresult : intake.route store r with ⟨_ | _, _, _, _⟩ <;> rw [hresult] at h <;> cases h
  rfl

/-- Where lengths are not made known, they are the same as before. -/
theorem UpToDate.step [BlockStore σ] {intake : Intake p} (h : intake.UpToDate)
    (hwf : intake.WellFormed) (rules : ChainRules p) (event : IntakeEvent σ p) :
    (intake.step rules event).UpToDate := by
  cases event with
  | submit store r =>
    rw [Intake.step]
    cases hanswer : (intake.submit store r).1 with
    | error error =>
      obtain ⟨hinit, hunknown⟩ := (refused_iff intake store r).mp ⟨error, hanswer⟩
      rw [submit_refused hinit hunknown]
      exact h.countTime "submit"
    | ok outcome =>
      obtain ⟨pool, orphans, haccepted⟩ := submit_accepted hanswer
      rw [haccepted]
      exact upToDate_publishLengths _
  | tick slot => exact upToDate_publishLengths _
  | importBlock block =>
    obtain ⟨receipts, hholds⟩ := hwf.orphans
    rw [Intake.step, importBlock_takeIn]
    by_cases hnone : (intake.orphans.release rules block).1 = []
    · rw [hnone, takeIn_nil, hholds.release_eq_self rules hnone, withOrphans_eq_self rfl]
      exact h.countTime "on_block_imported"
    · rw [takeIn_of_ne_nil _ hnone]
      exact upToDate_publishLengths _

/-- Everything that an event logs is logged before it makes lengths known. -/
theorem counts_of_mem_lines [BlockStore σ] (rules : ChainRules p) (intake : Intake p)
    (event : IntakeEvent σ p) :
    ∀ line ∈ (intake.report rules event).lines, line.counts = intake.shown := by
  have hlog : ∀ notices, ∀ line ∈ intake.log notices, line.counts = intake.shown := by
    intro notices line hline
    obtain ⟨notice, -, rfl⟩ := List.mem_map.mp hline
    rfl
  cases event with
  | submit store r =>
    have hlines : (intake.submit store r).2.2.2 = intake.log (intake.route store r).2.2.2 := by
      rw [submit]
      rcases intake.route store r with ⟨_ | _, _, _, _⟩ <;> rfl
    show ∀ line ∈ (intake.submit store r).2.2.2, line.counts = intake.shown
    rw [hlines]
    exact hlog _
  | tick slot => exact hlog _
  | importBlock block => exact hlog _

/-! ## Outcomes -/

/-- How often an outcome was counted, if there is a tally. -/
def counted? (intake : Intake p) (outcome : Outcome) : Option Nat :=
  intake.tally.map (·.outcomeCount outcome)

section

variable (intake : Intake p) (outcome : Outcome)

@[simp]
theorem counted?_countTime (operation : String) :
    (intake.countTime operation).counted? outcome = intake.counted? outcome := by
  obtain ⟨_, _, _ | _, _⟩ := intake <;> rfl

@[simp]
theorem counted?_publishLengths : intake.publishLengths.counted? outcome =
    intake.counted? outcome := by
  obtain ⟨_, _, _ | _, _⟩ := intake <;> rfl

theorem counted?_countOutcome (counted : Outcome) :
    (intake.countOutcome counted).counted? outcome =
      (intake.counted? outcome).map (· + [counted].count outcome) := by
  obtain ⟨_, _, _ | tally, _⟩ := intake
  · rfl
  · exact congrArg some (tally.outcomeCount_countOutcome counted outcome)

theorem counted?_addReleased (released : List (Received p)) :
    (addReleased intake released).counted? outcome = (intake.counted? outcome).map
      (· + (intake.pool.outcomes (released.map (·.attestation))).count outcome) := by
  rw [addReleased_eq_foldl]
  generalize released.map (·.attestation) = list
  induction list generalizing intake with
  | nil => exact Option.map_id'.symm
  | cons first rest ih =>
    rw [List.foldl_cons, ih, addCounted, counted?_countOutcome, Option.map_map,
      Pool.count_outcomes_cons]
    refine congrArg (Option.map · _) (funext fun n => ?_)
    exact Nat.add_assoc ..

end

/-- The outcome that a submission answers. -/
def answered [BlockStore σ] (intake : Intake p) : IntakeEvent σ p → List Outcome
  | .submit store received => (intake.submit store received).1.toOption.toList
  | .tick _ | .importBlock _ => []

/-- What becomes of the attestations that an import releases, one after the other. -/
def readmitted (rules : ChainRules p) (intake : Intake p) : IntakeEvent σ p → List Outcome
  | .importBlock block =>
      intake.pool.outcomes ((intake.orphans.release rules block).1.map (·.attestation))
  | .submit .. | .tick _ => []

/-- The attestations that a tick takes out of the pool. -/
def pruned (intake : Intake p) : IntakeEvent σ p → List (Attestation p)
  | .tick slot => intake.pool.pruned slot
  | .submit .. | .importBlock _ => []

variable [BlockStore σ]

theorem counted?_step (rules : ChainRules p) (intake : Intake p) (event : IntakeEvent σ p)
    (outcome : Outcome) : (intake.step rules event).counted? outcome =
      (intake.counted? outcome).map
        (· + ((intake.answered event).count outcome +
          (intake.readmitted rules event).count outcome)) := by
  cases event with
  | submit store r =>
    rw [step, answered, readmitted, List.count_nil]
    cases hanswer : (intake.submit store r).1 with
    | error error =>
      obtain ⟨hinit, hunknown⟩ := (refused_iff intake store r).mp ⟨error, hanswer⟩
      rw [submit_refused hinit hunknown, counted?_countTime]
      exact Option.map_id'.symm
    | ok answer =>
      obtain ⟨pool, orphans, haccepted⟩ := submit_accepted hanswer
      rw [haccepted, counted?_publishLengths, counted?_countOutcome, counted?_countTime]
      rfl
  | tick slot =>
    rw [step, tick]
    simp only [counted?_publishLengths, counted?_countTime]
    exact Option.map_id'.symm
  | importBlock block =>
    have hcount := counted?_addReleased
      (intake.withOrphans (intake.orphans.release rules block).2.1) outcome
      (intake.orphans.release rules block).1
    rw [step, importBlock_takeIn, takeIn, answered, readmitted, List.count_nil, Nat.zero_add]
    split
    · rw [counted?_countTime]
      exact hcount
    · rw [counted?_publishLengths, counted?_countTime]
      exact hcount

/-- What is pooled in an event is in the pool afterwards or takes the place of what is pruned. -/
theorem WellFormed.size_step {intake : Intake p} (h : intake.WellFormed) (rules : ChainRules p)
    (event : IntakeEvent σ p) :
    (intake.step rules event).pool.size + (intake.pruned event).length =
      intake.pool.size + ((intake.answered event).count .pooled +
        (intake.readmitted rules event).count .pooled) := by
  cases event with
  | submit store r =>
    rw [Intake.step, answered, readmitted, pruned]
    rcases intake.submit_cases store r with ⟨-, hanswer, hpool, -⟩ | ⟨-, -, hanswer, hpool, -⟩ |
      ⟨-, -, -, hanswer, hpool, -⟩ | ⟨-, -, hanswer, hpool, -⟩ <;> rw [hanswer, hpool]
    · exact h.pool.size_add r.attestation
    · rfl
    · rfl
    · rfl
  | tick slot => exact h.pool.size_tick slot
  | importBlock block =>
    obtain ⟨hpool, -⟩ := intake.importBlock_eq rules block
    rw [Intake.step, answered, readmitted, pruned, hpool, h.pool.size_run_submits,
      List.count_nil, Nat.zero_add]
    rfl

/-! ## Runs -/

/-- What is seen of the events of a run, one after the other. -/
def along {β : Type} (rules : ChainRules p) (seen : Intake p → IntakeEvent σ p → List β) :
    Intake p → List (IntakeEvent σ p) → List β
  | _, [] => []
  | intake, event :: rest => seen intake event ++ along rules seen (intake.step rules event) rest

theorem UpToDate.run {intake : Intake p} (h : intake.UpToDate) (hwf : intake.WellFormed)
    (rules : ChainRules p) (events : List (IntakeEvent σ p)) :
    (intake.run rules events).UpToDate := by
  induction events generalizing intake with
  | nil => exact h
  | cons event rest ih => exact ih (h.step hwf rules event) (hwf.step rules event)

theorem counted?_run (rules : ChainRules p) (intake : Intake p) (events : List (IntakeEvent σ p))
    (outcome : Outcome) : (intake.run rules events).counted? outcome =
      (intake.counted? outcome).map
        (· + ((along rules answered intake events).count outcome +
          (along rules (readmitted rules) intake events).count outcome)) := by
  induction events generalizing intake with
  | nil => exact Option.map_id'.symm
  | cons event rest ih =>
    rw [show intake.run rules (event :: rest) = (intake.step rules event).run rules rest from rfl,
      ih, counted?_step, Option.map_map, along, along, List.count_append, List.count_append]
    refine congrArg (Option.map · _) (funext fun n => ?_)
    show n + _ + _ = n + _
    omega

theorem WellFormed.size_run {intake : Intake p} (h : intake.WellFormed) (rules : ChainRules p)
    (events : List (IntakeEvent σ p)) :
    (intake.run rules events).pool.size + (along rules pruned intake events).length =
      intake.pool.size + ((along rules answered intake events).count .pooled +
        (along rules (readmitted rules) intake events).count .pooled) := by
  induction events generalizing intake with
  | nil => rfl
  | cons event rest ih =>
    have hfirst := h.size_step rules event
    have hrest := ih (h.step rules event)
    rw [along, along, along, List.count_append, List.count_append, List.length_append]
    show ((intake.step rules event).run rules rest).pool.size + _ = _
    omega

/-- Along every run of an intake with a new tally, the lengths that were made known are those of
pool and orphans, and every line is logged with those from before its event. Each outcome was
counted as often as submissions answered it and released attestations came to it. Whatever was
pooled is in the pool or was pruned. -/
theorem run_accounts {σ : Type} [BlockStore σ] {p : Preset} (rules : ChainRules p)
    (settings : Settings) (start : Epoch) (registered : Bool) (events : List (IntakeEvent σ p)) :
    let first : Intake p := new settings start (some { registered })
    let intake := first.run rules events
    let sizes : ShownCounts := ⟨intake.pool.size, intake.orphans.size⟩
    intake.shown = sizes ∧
      (∀ event : IntakeEvent σ p, ∀ line ∈ (intake.report rules event).lines,
        line.counts = sizes) ∧
      ∃ tally, intake.tally = some tally ∧
        tally.length collectionType "pooled" = min sizes.pooled Tally.maxLength ∧
        tally.length collectionType "orphaned" = min sizes.orphaned Tally.maxLength ∧
        (∀ outcome, tally.outcomeCount outcome = (along rules answered first events).count outcome +
          (along rules (readmitted rules) first events).count outcome) ∧
        tally.outcomeCount .pooled =
          intake.pool.size + (along rules pruned first events).length := by
  intro first intake sizes
  have hwf : first.WellFormed := wellFormed_new settings start _
  have hlengths : intake.UpToDate := (upToDate_new settings start registered).run hwf rules events
  have hcounted := counted?_run rules first events
  have hsize := hwf.size_run rules events
  refine ⟨hlengths.shown_eq, ?_, ?_⟩
  · intro event line hline
    exact (counts_of_mem_lines rules intake event line hline).trans hlengths.shown_eq
  -- There is a tally from the start, and it shows nothing yet.
  · obtain ⟨tally, htally, -⟩ := Option.map_eq_some_iff.mp (hcounted .pooled)
    have hcount : ∀ outcome, tally.outcomeCount outcome =
        (along rules answered first events).count outcome +
          (along rules (readmitted rules) first events).count outcome := by
      intro outcome
      have heq := hcounted outcome
      rw [counted?, htally] at heq
      exact (Option.some.inj heq).trans (Nat.zero_add _)
    refine ⟨tally, htally, hlengths.pooled_eq tally htally, hlengths.orphaned_eq tally htally,
      hcount, ?_⟩
    rw [hcount, hsize]
    exact (Nat.zero_add _).symm

end Intake

end AttestationIntake
