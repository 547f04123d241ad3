import AttestationIntake.Proofs.EpochIndex.Changes

/-!
Changes of an epoch index, one after the other. An index is determined by its bounds and by the
arrivals that it stands for. So two moves of the baseline are one, and evictions can be exchanged,
because this holds for the arrivals.
-/

namespace AttestationIntake.EpochIndex

variable {ν : Type} {index index' : EpochIndex ν} {arrivals : List (Nat × Arrival ν)}

theorem Represents.ext (h : index.Represents arrivals) (h' : index'.Represents arrivals)
    (hbaseline : index.baseline = index'.baseline) (htracked : index.tracked = index'.tracked)
    (hcapacity : index.capacity = index'.capacity)
    (hnext : index.nextNumber = index'.nextNumber) : index = index' := by
  have hrows : index.rows = index'.rows := by
    apply h.rows_noneEmpty.ext h'.rows_noneEmpty
    intro epoch number
    apply Option.ext
    rintro ⟨root, value⟩
    rw [h.mem_rows, h'.mem_rows]
  have hplaces : index.places = index'.places := by
    apply h.places_noneEmpty.ext h'.places_noneEmpty
    intro root number
    apply Option.ext
    intro epoch
    rw [h.mem_places, h'.mem_places]
  have hsize : index.size = index'.size := h.size_eq.trans h'.size_eq.symm
  obtain ⟨_, _, _, _, _, _, _⟩ := index
  obtain ⟨_, _, _, _, _, _, _⟩ := index'
  cases hrows
  cases hplaces
  cases hsize
  cases hbaseline
  cases htracked
  cases hcapacity
  cases hnext
  rfl

/-! ## Moving the baseline -/

theorem moveBaseline_behind (index : EpochIndex ν) {baseline : Epoch}
    (h : baseline ≤ index.baseline) : (index.moveBaseline baseline).2 = index := by
  rw [moveBaseline, if_pos h]

/-- What the first move left, the second one drops if the only move would have dropped it. -/
theorem filter_epoch_filter_epoch {α : Type} (epoch : α → Epoch) (l : List α)
    {first second : Epoch} (h : first ≤ second) :
    (l.filter (first ≤ epoch ·)).filter (second ≤ epoch ·) = l.filter (second ≤ epoch ·) := by
  rw [List.filter_filter]
  apply List.filter_congr
  intro a _
  rw [Bool.and_eq_left_iff_imp, decide_eq_true_eq, decide_eq_true_eq]
  exact UInt64.le_trans h

theorem Represents.moveBaseline_moveBaseline (h : index.Represents arrivals)
    (first second : Epoch) : ((index.moveBaseline first).2.moveBaseline second).2 =
      (index.moveBaseline (max first second)).2 := by
  obtain ⟨_, _, _, hframe⟩ := index.moveBaseline_frame first
  have hbaseline : (index.moveBaseline first).2.baseline = max index.baseline first := by
    rw [hframe]
  by_cases hsecond : second ≤ first
  -- The second move comes too late.
  · have hbehind : second ≤ (index.moveBaseline first).2.baseline := by
      rw [hbaseline, UInt64.le_iff_toNat_le, toNat_max]
      exact Nat.le_trans (UInt64.le_iff_toNat_le.mp hsecond) (Nat.le_max_right _ _)
    rw [moveBaseline_behind _ hbehind, max_eq_of_ge hsecond]
  · rw [UInt64.not_le] at hsecond
    have hle := UInt64.le_of_lt hsecond
    rw [max_eq_of_le hle]
    by_cases hfirst : first ≤ index.baseline
    · rw [moveBaseline_behind index hfirst]
    -- Both moves drop something, and what is left is what the second one leaves.
    · have hbeyond : ¬second ≤ index.baseline := fun hbehind =>
        hfirst (UInt64.le_trans hle hbehind)
      have hahead : ¬second ≤ (index.moveBaseline first).2.baseline := by
        rw [hbaseline, max_eq_of_le (UInt64.le_of_lt (UInt64.not_le.mp hfirst)), UInt64.not_le]
        exact hsecond
      have hboth := ((h.moveBaseline hfirst).2.moveBaseline hahead).2
      rw [filter_epoch_filter_epoch (·.2.epoch) arrivals hle] at hboth
      obtain ⟨_, _, _, hframe'⟩ := (index.moveBaseline first).2.moveBaseline_frame second
      obtain ⟨_, _, _, hframe''⟩ := index.moveBaseline_frame second
      apply hboth.ext (h.moveBaseline hbeyond).2 <;> rw [hframe', hframe'', hframe]
      show max (max index.baseline first) second = max index.baseline second
      rw [max_max, max_eq_of_le hle]

/-! ## Evicting roots -/

theorem Represents.evict_eq_self (h : index.Represents arrivals) {root : Root}
    (hnone : (index.evict root).1 = []) : (index.evict root).2 = index := by
  obtain ⟨hvalues, hothers⟩ := h.evict root
  rw [hnone, eq_comm, List.map_eq_nil_iff, List.filter_map, List.map_eq_nil_iff,
    List.filter_eq_nil_iff] at hvalues
  have hall : arrivals.filter (·.2.root ≠ root) = arrivals := by
    rw [List.filter_eq_self]
    intro a ha
    simpa using hvalues a ha
  rw [hall] at hothers
  obtain ⟨_, _, _, hframe⟩ := index.evict_frame root
  apply hothers.ext h <;> rw [hframe]

theorem Represents.evict_evict (h : index.Represents arrivals) (first second : Root) :
    ((index.evict first).2.evict second).2 = ((index.evict second).2.evict first).2 := by
  have hboth := ((h.evict first).2.evict second).2
  have hboth' := ((h.evict second).2.evict first).2
  rw [List.filter_filter] at hboth hboth'
  simp only [Bool.and_comm] at hboth
  obtain ⟨_, _, _, hframe⟩ := (index.evict first).2.evict_frame second
  obtain ⟨_, _, _, hframe'⟩ := index.evict_frame first
  obtain ⟨_, _, _, hframe''⟩ := (index.evict second).2.evict_frame first
  obtain ⟨_, _, _, hframe'''⟩ := index.evict_frame second
  apply hboth.ext hboth' <;> rw [hframe, hframe', hframe'', hframe''']

end AttestationIntake.EpochIndex
