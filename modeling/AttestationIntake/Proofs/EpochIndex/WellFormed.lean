import AttestationIntake.Proofs.EpochIndex.Refinement

/-!
The invariant of an epoch index. Rows, places and size say the same thing three times, and no change
of the index checks that they agree; in every state that calls can lead to they do.
-/

namespace AttestationIntake

variable {ν : Type}

/-! ## Bounds of the list -/

/-- Equal values under one epoch and root. -/
def Arrival.Same [BEq ν] (older newer : Arrival ν) : Prop :=
  older.epoch = newer.epoch ∧ older.root = newer.root ∧ (older.value == newer.value) = true

instance [BEq ν] (older newer : Arrival ν) : Decidable (older.Same newer) :=
  inferInstanceAs (Decidable (_ ∧ _ ∧ _))

/-- No more arrivals than there is room for, and none that is the same as an earlier one. -/
structure ArrivalList.Bounded [BEq ν] (list : ArrivalList ν) : Prop where
  length_le : list.arrivals.length ≤ list.capacity.toNat
  distinct : list.arrivals.Pairwise fun older newer => ¬older.Same newer

namespace ArrivalList.Bounded

variable [BEq ν] {list : ArrivalList ν}

theorem empty (tracked : UInt64) (capacity : Capacity) :
    (ArrivalList.empty tracked capacity : ArrivalList ν).Bounded where
  length_le := Nat.zero_le _
  distinct := .nil

theorem filter (h : list.Bounded) (keep : Arrival ν → Bool) (baseline : Epoch) :
    ArrivalList.Bounded { list with arrivals := list.arrivals.filter keep, baseline } where
  length_le := Nat.le_trans (List.length_filter_le _ _) h.length_le
  distinct := h.distinct.filter _

theorem add (h : list.Bounded) (epoch : Epoch) (root : Root) (value : ν) :
    (list.add epoch root value).2.Bounded := by
  unfold ArrivalList.add
  split
  · exact h
  · rename_i hnew
    have hdistinct : (list.arrivals ++ [(⟨epoch, root, value⟩ : Arrival ν)]).Pairwise
        fun older newer => ¬older.Same newer := by
      rw [List.pairwise_append]
      refine ⟨h.distinct, List.pairwise_singleton .., ?_⟩
      intro older holder newer hnewer
      rw [List.mem_singleton.mp hnewer]
      -- An arrival that is the same would have been found.
      rintro ⟨hepoch, hroot, hvalue⟩
      exact hnew (List.any_eq_true.mpr ⟨older, holder, by simp [hepoch, hroot, hvalue]⟩)
    simp only
    split
    · have hne : list.arrivals ++ [(⟨epoch, root, value⟩ : Arrival ν)] ≠ [] := by simp
      obtain ⟨before, oldest, after, hsplit, hbefore, hafter⟩ := exists_split_oldest hne
      obtain ⟨-, herase⟩ := find?_eraseP_isLowest hbefore hafter
      rw [hsplit, herase]
      constructor
      -- One came and one leaves.
      · have hlength := congrArg List.length hsplit
        have hle := h.length_le
        simp only [List.length_append, List.length_cons, List.length_nil] at hlength ⊢
        omega
      · rw [hsplit] at hdistinct
        exact hdistinct.sublist (List.Sublist.append_left (List.sublist_cons_self ..) _)
    · rename_i hroom
      exact ⟨Nat.le_of_not_lt hroom, hdistinct⟩

theorem step (h : list.Bounded) (call : IndexCall ν) : (list.step call).2.Bounded := by
  cases call with
  | add epoch root value => exact h.add epoch root value
  | evict root => exact h.filter _ _
  | moveBaseline baseline =>
    show (list.moveBaseline baseline).2.Bounded
    unfold ArrivalList.moveBaseline
    split
    · exact h
    · exact h.filter _ _

theorem run (h : list.Bounded) (calls : List (IndexCall ν)) : (list.run calls).Bounded := by
  induction calls generalizing list with
  | nil => exact h
  | cons call calls ih => exact ih (h.step call)

end ArrivalList.Bounded

namespace ArrivalList

variable [BEq ν]

theorem step_capacity (list : ArrivalList ν) (call : IndexCall ν) :
    (list.step call).2.capacity = list.capacity := by
  cases call with
  | add epoch root value =>
    show (list.add epoch root value).2.capacity = _
    unfold add
    split
    · rfl
    · simp only
      split <;> rfl
  | evict root => rfl
  | moveBaseline baseline =>
    show (list.moveBaseline baseline).2.capacity = _
    unfold moveBaseline
    split <;> rfl

theorem run_capacity (list : ArrivalList ν) (calls : List (IndexCall ν)) :
    (list.run calls).capacity = list.capacity := by
  induction calls generalizing list with
  | nil => rfl
  | cons call calls ih => exact (ih _).trans (list.step_capacity call)

end ArrivalList

/-! ## The invariant -/

namespace EpochIndex

open Std (ExtTreeMap)

/-- The rows, the places and the size agree, within the capacity. -/
structure WellFormed [BEq ν] (index : EpochIndex ν) : Prop where
  /-- A root has a place for exactly the values that stand under it in the rows. -/
  place_iff : ∀ epoch number root, (∃ value, index.rows.find? epoch number = some (root, value)) ↔
    index.places.find? root number = some epoch
  number_unique : ∀ number epoch epoch' entry entry', index.rows.find? epoch number = some entry →
    index.rows.find? epoch' number = some entry' → epoch = epoch' ∧ entry = entry'
  number_lt : ∀ epoch number entry, index.rows.find? epoch number = some entry →
    number < index.nextNumber
  rows_noneEmpty : index.rows.NoneEmpty
  places_noneEmpty : index.places.NoneEmpty
  size_eq : index.size = index.rows.entries.length
  size_le : index.size ≤ index.capacity.toNat
  /-- No two values under one epoch and root are equal. -/
  values_distinct : ∀ epoch root number number' value value', number < number' →
    index.rows.find? epoch number = some (root, value) →
    index.rows.find? epoch number' = some (root, value') → (value == value') = false

/-- What the changes of an index take for granted. -/
structure Coherent (index : EpochIndex ν) : Prop where
  /-- Every place of a root leads to a value. -/
  evict_all : ∀ root places, index.places[root]? = some places →
    (index.evict root).1.length = places.size
  evict_le_size : ∀ root, (index.evict root).1.length ≤ index.size
  dropped_le_size : ∀ baseline, (index.moveBaseline baseline).1 ≤ index.size
  /-- An index that has grown above its capacity has an oldest value to remove. -/
  evictOldest_isSome : ∀ epoch root value,
    index.capacity.toNat < (index.grow epoch root value).size →
    (index.grow epoch root value).evictOldest.1.isSome

variable {index : EpochIndex ν} {numbered : List (Nat × Arrival ν)}

theorem Represents.wellFormed [BEq ν] (h : index.Represents numbered)
    (hsize : index.size ≤ index.capacity.toNat)
    (hdistinct : numbered.Pairwise fun older newer => ¬older.2.Same newer.2) :
    index.WellFormed where
  place_iff := by
    intro epoch number root
    simp only [h.mem_rows, h.mem_places]
  number_unique := by
    rintro number epoch epoch' ⟨root, value⟩ ⟨root', value'⟩ hrow hrow'
    cases h.eq_of_number ((h.mem_rows ..).mp hrow) ((h.mem_rows ..).mp hrow') rfl
    exact ⟨rfl, rfl⟩
  number_lt := by
    rintro epoch number ⟨root, value⟩ hrow
    exact h.number_lt _ ((h.mem_rows ..).mp hrow)
  rows_noneEmpty := h.rows_noneEmpty
  places_noneEmpty := h.places_noneEmpty
  size_eq := by rw [h.size_eq, h.length_entries]
  size_le := hsize
  values_distinct := by
    intro epoch root number number' value value' hlt hrow hrow'
    have hmem := (h.mem_rows ..).mp hrow
    have hmem' := (h.mem_rows ..).mp hrow'
    obtain ⟨before, after, rfl⟩ := List.append_of_mem hmem'
    -- The number is the lower one, so its arrival is among those before.
    have hbefore : (number, ⟨epoch, root, value⟩) ∈ before := by
      have hlater := List.pairwise_cons.mp (List.pairwise_append.mp h.ascending).2.1
      rcases List.mem_append.mp hmem with hmem | hmem
      · exact hmem
      · rcases List.mem_cons.mp hmem with heq | hmem
        · exact absurd (congrArg Prod.fst heq) (Nat.ne_of_lt hlt)
        · exact absurd (hlater.1 _ hmem) (Nat.lt_asymm hlt)
    have hsame := (List.pairwise_append.mp hdistinct).2.2 _ hbefore _ List.mem_cons_self
    exact Bool.eq_false_iff.mpr fun heq => hsame ⟨rfl, rfl, heq⟩

theorem Represents.coherent (h : index.Represents numbered) : index.Coherent where
  evict_all := by
    intro root places hplaces
    have hlength := congrArg List.length (h.toList_places hplaces)
    rw [(h.evict root).1, List.length_map, List.filter_map, List.length_map]
    rw [ExtTreeMap.length_toList, List.length_map] at hlength
    exact hlength.symm
  evict_le_size := by
    intro root
    have hlength : (numbered.map (·.2)).length = numbered.length := List.length_map _
    rw [(h.evict root).1, h.size_eq, List.length_map, ← hlength]
    exact List.length_filter_le _ _
  dropped_le_size := by
    intro baseline
    by_cases hbehind : baseline ≤ index.baseline
    · rw [EpochIndex.moveBaseline, if_pos hbehind]
      exact Nat.zero_le _
    · have hlength : (numbered.map (·.2)).length = numbered.length := List.length_map _
      rw [(h.moveBaseline hbehind).1, h.size_eq, ← hlength]
      exact List.length_filter_le _ _
  evictOldest_isSome := by
    intro epoch root value _
    obtain ⟨_, oldest, _, -, -, -, hvalue, -⟩ :=
      (h.grow epoch root value).evictOldest (by simp)
    rw [hvalue]
    rfl

/-! ## Numbers -/

theorem step_nextNumber [BEq ν] (index : EpochIndex ν) (call : IndexCall ν) :
    (index.step call).2.nextNumber ≤ index.nextNumber + if call.isAdd then 1 else 0 := by
  cases call with
  | add epoch root value =>
    show (index.add epoch root value).2.nextNumber ≤ index.nextNumber + 1
    unfold add
    split
    · exact Nat.le_succ _
    · simp only
      split
      · obtain ⟨rows, places, size, hframe⟩ := (index.grow epoch root value).evictOldest_frame
        rw [hframe]
        exact Nat.le_refl _
      · exact Nat.le_refl _
  | evict root =>
    obtain ⟨rows, places, size, hframe⟩ := index.evict_frame root
    show (index.evict root).2.nextNumber ≤ _
    rw [hframe]
    exact Nat.le_refl _
  | moveBaseline baseline =>
    show (index.moveBaseline baseline).2.nextNumber ≤ _
    unfold moveBaseline
    split <;> exact Nat.le_refl _

theorem run_nextNumber [BEq ν] (index : EpochIndex ν) (calls : List (IndexCall ν)) :
    (index.run calls).nextNumber ≤ index.nextNumber + calls.countP (·.isAdd) := by
  induction calls generalizing index with
  | nil => exact Nat.le_refl _
  | cons call calls ih =>
    have hstep := index.step_nextNumber call
    have hrun := ih (index.step call).2
    rw [List.countP_cons]
    exact Nat.le_trans hrun (by omega)

/-- After any calls, an index is well-formed and coherent, has its capacity still, and has taken no
more numbers than values were added, so that fewer than `2 ^ 64` additions never exhaust a word. -/
theorem run_wellFormed {ν : Type} [BEq ν] (tracked : UInt64) (capacity : Capacity)
    (calls : List (IndexCall ν)) :
    ((empty tracked capacity : EpochIndex ν).run calls).WellFormed ∧
      ((empty tracked capacity : EpochIndex ν).run calls).Coherent ∧
      ((empty tracked capacity : EpochIndex ν).run calls).capacity = capacity ∧
      ((empty tracked capacity : EpochIndex ν).run calls).nextNumber ≤ calls.countP (·.isAdd) := by
  obtain ⟨⟨numbered, hrep, harrivals⟩, -, -, hcapacity⟩ :=
    (Simulates.empty tracked capacity).run calls
  -- The bounds of the list of arrivals carry over to the index that it simulates.
  obtain ⟨hlength, hdistinct⟩ := (ArrivalList.Bounded.empty tracked capacity).run calls
  refine ⟨hrep.wellFormed ?_ ?_, hrep.coherent, ?_, ?_⟩
  · rwa [harrivals, List.length_map, ← hrep.size_eq, hcapacity] at hlength
  · rwa [harrivals, List.pairwise_map] at hdistinct
  · rw [← hcapacity, ArrivalList.run_capacity]
    rfl
  · simpa [empty] using run_nextNumber (empty tracked capacity) calls

end EpochIndex

end AttestationIntake
