import AttestationIntake.Proofs.Intake.Events

/-!
What the answer to a submission tells. An attestation that is pooled or a duplicate is in the pool,
and one that is stale or untracked is nowhere it was looked for. Only `orphaned` does not say that
the attestation waits: if there was no room and all others target later epochs, it left at once.
-/

namespace AttestationIntake

variable {p : Preset}

namespace Orphans

variable {orphans : Orphans p} {receipts : List (Received p)} {r : Received p}

/-- There is no room for a receipt, and all that waits targets later epochs. -/
def TurnsAway (orphans : Orphans p) (received : Received p) : Prop :=
  orphans.size = orphans.index.capacity.toNat ∧
    ∀ other ∈ orphans.index.values, received.target < other.target

/-- A receipt waits, and every block of the window that it is for would release it. -/
def Keeps (rules : ChainRules p) (orphans : Orphans p) (received : Received p) : Prop :=
  received ∈ orphans.index.values ∧ ∀ block, rules.blockRoot block = received.root →
    orphans.tracks (p.epochAt block.slot) = true → received ∈ (orphans.release rules block).1

theorem Holds.keeps_iff (h : orphans.Holds receipts) (rules : ChainRules p) (r : Received p) :
    orphans.Keeps rules r ↔ r ∈ receipts := by
  rw [Keeps, h.mem_values]
  constructor
  · exact fun hkeeps => hkeeps.1
  · intro hmem
    refine ⟨hmem, ?_⟩
    intro block hroot htracks
    rw [(h.release rules htracks).1, List.mem_filter]
    exact ⟨hmem, decide_eq_true hroot.symm⟩

theorem Holds.turnsAway_iff (h : orphans.Holds receipts) (r : Received p) :
    orphans.TurnsAway r ↔ receipts.length = orphans.index.capacity.toNat ∧
      ∀ other ∈ receipts, r.target < other.target := by
  simp only [TurnsAway, h.size_eq, h.mem_values]

theorem Holds.not_turnsAway_of_mem (h : orphans.Holds receipts) {oldest : Received p}
    (hmem : oldest ∈ receipts) (hle : oldest.target ≤ r.target) : ¬orphans.TurnsAway r := by
  intro haway
  obtain ⟨-, hlater⟩ := (h.turnsAway_iff r).mp haway
  exact absurd (hlater oldest hmem) (UInt64.not_lt.mpr hle)

/-- A receipt that is filed waits from then on, unless it is turned away. -/
theorem Holds.file_settles (h : orphans.Holds receipts) (rules : ChainRules p)
    (htracks : orphans.tracks r.target = true) :
    (¬orphans.TurnsAway r ∧ (orphans.file r).2.Keeps rules r) ∨
      (orphans.TurnsAway r ∧ r ∉ (orphans.file r).2.index.values ∧
        (orphans.file r).2.index.values = orphans.index.values) := by
  rcases h.file htracks with ⟨hold, -, hfile⟩ | ⟨-, hroom, -, hfile⟩ |
    ⟨hnew, hfull, hlater, -, hfile⟩ | ⟨-, -, before, oldest, after, rfl, -, -, hle, -, hfile⟩
  · exact .inl ⟨h.not_turnsAway_of_mem hold (UInt64.le_refl _), (hfile.keeps_iff rules r).mpr hold⟩
  · refine .inl ⟨?_, (hfile.keeps_iff rules r).mpr (by simp)⟩
    rw [h.turnsAway_iff]
    exact fun haway => Nat.ne_of_lt hroom haway.1
  · refine .inr ⟨(h.turnsAway_iff r).mpr ⟨hfull, hlater⟩, ?_, ?_⟩
    · rwa [hfile.mem_values]
    · rw [hfile.values_eq, h.values_eq]
  · exact .inl ⟨h.not_turnsAway_of_mem (by simp) hle, (hfile.keeps_iff rules r).mpr (by simp)⟩

end Orphans

namespace Intake

variable {σ : Type} [BlockStore σ]

/-- What an answer tells about the intake before the submission and after it. -/
def Settles (rules : ChainRules p) (before after : Intake p) (r : Received p) :
    Except IntakeError Outcome → Prop
  | .ok .pooled | .ok .duplicate =>
      r.attestation ∈ after.pool.targeting r.target ∧ after.orphans = before.orphans
  | .ok .stale =>
      r.attestation ∉ before.pool.attestations ∧
        after.pool = before.pool ∧ after.orphans = before.orphans
  | .ok .untracked =>
      r.attestation ∉ before.orphans.attestations ∧
        after.pool = before.pool ∧ after.orphans = before.orphans
  | .ok .orphaned =>
      after.pool = before.pool ∧
        ((¬before.orphans.TurnsAway r ∧ after.orphans.Keeps rules r) ∨
          (before.orphans.TurnsAway r ∧ r ∉ after.orphans.index.values ∧
            after.orphans.index.values = before.orphans.index.values))
  | .error _ => after.pool = before.pool ∧ after.orphans = before.orphans

theorem WellFormed.submit_settles {intake : Intake p} (h : intake.WellFormed)
    (rules : ChainRules p) (store : σ) (r : Received p) :
    Settles rules intake (intake.submit store r).2.1 r (intake.submit store r).1 := by
  obtain ⟨receipts, hholds⟩ := h.orphans
  rcases intake.submit_cases store r with ⟨-, hanswer, hpool, horphans⟩ |
    ⟨-, -, hanswer, hpool, horphans⟩ | ⟨-, -, htracks, hanswer, hpool, horphans⟩ |
    ⟨-, htracks, hanswer, hpool, horphans⟩ <;> rw [hanswer]
  · rcases intake.pool.add_cases r.attestation with ⟨hstale, hadd⟩ | ⟨-, hmem, hadd⟩ |
      ⟨-, -, hadd⟩ <;> rw [hadd] at hpool ⊢
    · refine ⟨?_, hpool, horphans⟩
      rw [h.pool.mem_attestations_iff]
      exact fun hmem => absurd hstale (UInt64.not_lt.mpr (h.pool.threshold_le _ _ hmem))
    · exact ⟨hpool ▸ hmem, horphans⟩
    · refine ⟨?_, horphans⟩
      rw [hpool, Pool.mem_targeting_put]
      exact .inr ⟨rfl, rfl⟩
  · exact ⟨hpool, horphans⟩
  · refine ⟨?_, hpool, horphans⟩
    rw [hholds.mem_attestations]
    -- What waits is tracked, and the target is that of the attestation alone.
    rintro ⟨other, hmem, hsame⟩
    have hother := hholds.tracks other hmem
    rw [Received.target, hsame, ← Received.target, htracks] at hother
    cases hother
  · refine ⟨hpool, ?_⟩
    rw [horphans]
    exact hholds.file_settles rules htracks

/-- Along every run, whatever the store answers, an answer tells where the attestation is. -/
theorem run_submit_settles (rules : ChainRules p) (settings : Settings) (start : Epoch)
    (tally : Option Tally) (events : List (IntakeEvent σ p)) (store : σ) (r : Received p) :
    let before := (new settings start tally : Intake p).run rules events
    Settles rules before (before.submit store r).2.1 r (before.submit store r).1 :=
  ((wellFormed_new settings start tally).run rules events).submit_settles rules store r

/-- The only place is taken by a later epoch. The answer says nothing of that, and the block that
is imported next releases nothing. -/
theorem orphaned_of_turnsAway :
    let rules : ChainRules .minimal := .rejecting []
    let later : Received .minimal :=
      { attestation.data := { target := { epoch := 11 }, beaconBlockRoot := .ofNat 32 2 } }
    let r : Received .minimal :=
      { attestation.data := { target := { epoch := 10 }, beaconBlockRoot := .ofNat 32 1 } }
    let before := (new { orphanCapacity := { entries := 1 } } 10 none).run rules
      [.tick 80, .submit ({} : LaggingStore) later]
    let (answer, after, _, _) := before.submit ({} : LaggingStore) r
    answer = .ok .orphaned ∧ r ∉ after.orphans.index.values ∧
      (importBlock rules after { slot := 80, stateRoot := .ofNat 32 1 }).1 = 0 :=
  ⟨rfl, by decide +kernel, by decide +kernel⟩

end Intake

end AttestationIntake
