import AttestationIntake.Proofs.Chain.Epoch
import AttestationIntake.Proofs.EpochIndex.Represents
import Mathlib.Data.List.Sort

/-!
What each change of an epoch index does to the arrivals it stands for. Rows and places are changed
in a different order each time; the list of arrivals says that they agree again afterwards.
-/

namespace AttestationIntake.EpochIndex

open Std (ExtTreeMap)

variable {ν : Type} {index : EpochIndex ν} {arrivals : List (Nat × Arrival ν)}

/-! ## Adding -/

/-- A value that is stored stands behind all others. -/
theorem Represents.grow (h : index.Represents arrivals) (epoch : Epoch) (root : Root) (value : ν) :
    (index.grow epoch root value).Represents
      (arrivals ++ [(index.nextNumber, ⟨epoch, root, value⟩)]) where
  ascending := by
    rw [List.pairwise_append]
    refine ⟨h.ascending, List.pairwise_singleton .., ?_⟩
    intro a ha b hb
    rw [List.mem_singleton.mp hb]
    exact h.number_lt a ha
  number_lt := by
    intro a ha
    rcases List.mem_append.mp ha with ha | ha
    · exact Nat.lt_succ_of_lt (h.number_lt a ha)
    · rw [List.mem_singleton.mp ha]
      exact Nat.lt_succ_self _
  mem_rows := by
    intro epoch' number root' value'
    rw [EpochIndex.grow, Shelves.find?_put, List.mem_append, ← h.mem_rows]
    split
    · rename_i hnew
      obtain ⟨rfl, rfl⟩ := hnew
      -- Only numbers below the next one are taken.
      have hfresh : index.rows.find? epoch index.nextNumber ≠ some (root', value') := by
        intro hold
        exact Nat.lt_irrefl _ (h.number_lt _ ((h.mem_rows ..).mp hold))
      simp [hfresh, eq_comm]
    · rename_i hnew
      simp only [List.mem_singleton, Prod.mk.injEq, Arrival.mk.injEq]
      tauto
  mem_places := by
    intro root' number epoch'
    rw [EpochIndex.grow, Shelves.find?_put]
    simp only [List.mem_append, exists_or, ← h.mem_places]
    split
    · rename_i hnew
      obtain ⟨rfl, rfl⟩ := hnew
      have hfresh : index.places.find? root index.nextNumber ≠ some epoch' := by
        intro hold
        obtain ⟨value', hmem⟩ := (h.mem_places ..).mp hold
        exact Nat.lt_irrefl _ (h.number_lt _ hmem)
      simp [hfresh, eq_comm]
    · rename_i hnew
      simp only [List.mem_singleton, Prod.mk.injEq, Arrival.mk.injEq]
      constructor
      · exact .inl
      · rintro (hold | ⟨value', hnumber, -, hroot, -⟩)
        · exact hold
        · exact absurd ⟨hroot.symm, hnumber.symm⟩ hnew
  rows_noneEmpty := h.rows_noneEmpty.put _ _ _
  places_noneEmpty := h.places_noneEmpty.put _ _ _
  size_eq := by
    rw [List.length_append, ← h.size_eq]
    rfl

/-! ## Removing the oldest -/

/-- Without one arrival, those with another number are left. -/
theorem Represents.mem_append_iff {before after : List (Nat × Arrival ν)} {a b : Nat × Arrival ν}
    (h : index.Represents (before ++ a :: after)) :
    b ∈ before ++ after ↔ b ∈ before ++ a :: after ∧ b.1 ≠ a.1 := by
  have hnumbers := h.nodup_numbers
  rw [List.map_append, List.map_cons, List.nodup_middle, List.nodup_cons, ← List.map_append]
    at hnumbers
  constructor
  · intro hb
    refine ⟨?_, fun heq => hnumbers.1 (heq ▸ List.mem_map_of_mem hb)⟩
    simp only [List.mem_append, List.mem_cons] at hb ⊢
    tauto
  · rintro ⟨hb, hne⟩
    have hba : b ≠ a := fun heq => hne (congrArg Prod.fst heq)
    simp only [List.mem_append, List.mem_cons] at hb ⊢
    tauto

/-- Taking one arrival out of its row and its places. -/
theorem Represents.remove {before after : List (Nat × Arrival ν)} {number : Nat} {epoch : Epoch}
    {root : Root} {value : ν}
    (h : index.Represents (before ++ (number, ⟨epoch, root, value⟩) :: after)) :
    Represents { index with
      rows := index.rows.remove epoch number
      places := index.places.remove root number
      size := index.size - 1 } (before ++ after) where
  ascending := h.ascending.sublist (List.Sublist.append_left (List.sublist_cons_self ..) _)
  number_lt := fun a ha => h.number_lt a (h.mem_append_iff.mp ha).1
  mem_rows := by
    intro epoch' number' root' value'
    rw [Shelves.find?_remove, h.mem_append_iff, ← h.mem_rows]
    split
    · rename_i hgone
      simp [hgone.2]
    · rename_i hkept
      -- Of one number there is one arrival, so it would be the one that was taken out.
      refine ⟨fun hrow => ⟨hrow, fun heq => hkept ?_⟩, And.left⟩
      cases h.eq_of_number ((h.mem_rows ..).mp hrow) List.mem_append_cons_self heq
      exact ⟨rfl, rfl⟩
  mem_places := by
    intro root' number' epoch'
    rw [Shelves.find?_remove]
    simp only [h.mem_append_iff, exists_and_right, ← h.mem_places]
    split
    · rename_i hgone
      simp [hgone.2]
    · rename_i hkept
      refine ⟨fun hplace => ⟨hplace, fun heq => hkept ?_⟩, And.left⟩
      obtain ⟨value', hmem⟩ := (h.mem_places ..).mp hplace
      cases h.eq_of_number hmem List.mem_append_cons_self heq
      exact ⟨rfl, rfl⟩
  rows_noneEmpty := h.rows_noneEmpty.remove _ _
  places_noneEmpty := h.places_noneEmpty.remove _ _
  size_eq := by
    show index.size - 1 = _
    rw [h.size_eq, List.length_append, List.length_append, List.length_cons]
    omega

/-- Removing the oldest changes nothing but the maps and the size. -/
theorem evictOldest_frame (index : EpochIndex ν) :
    ∃ rows places size, index.evictOldest.2 = { index with rows, places, size } := by
  unfold evictOldest
  split
  · exact ⟨_, _, _, rfl⟩
  · split <;> exact ⟨_, _, _, rfl⟩

theorem add_frame [BEq ν] (index : EpochIndex ν) (epoch : Epoch) (root : Root) (value : ν) :
    ∃ rows places nextNumber size,
      (index.add epoch root value).2 = { index with rows, places, nextNumber, size } := by
  unfold add
  split
  · exact ⟨_, _, _, _, rfl⟩
  · simp only
    split
    · obtain ⟨rows, places, size, hframe⟩ := (index.grow epoch root value).evictOldest_frame
      exact ⟨rows, places, index.nextNumber + 1, size, hframe⟩
    · exact ⟨_, _, _, _, rfl⟩

/-- What is read first is taken out. -/
theorem Represents.evictOldest_eq (h : index.Represents arrivals) (hne : arrivals ≠ []) :
    ∃ number epoch root value rest, index.stored = (number, ⟨epoch, root, value⟩) :: rest ∧
      index.evictOldest = (some value, { index with
        rows := index.rows.remove epoch number
        places := index.places.remove root number
        size := index.size - 1 }) := by
  have hrows : index.rows.toList ≠ [] := by
    intro hnil
    have hperm := h.stored_perm
    rw [stored, Shelves.labelled, hnil] at hperm
    exact hne hperm.nil_eq.symm
  obtain ⟨⟨epoch, row⟩, hfirst⟩ := Option.isSome_iff_exists.mp (List.isSome_head?.mpr hrows)
  -- The first row has a first value, as no row is empty.
  obtain ⟨number, ⟨root, value⟩, hrow, hlabelled⟩ :=
    Shelves.head?_labelled h.rows_noneEmpty hfirst
  obtain ⟨rest, hrest⟩ := List.head?_eq_some_iff.mp hlabelled
  refine ⟨number, epoch, root, value, _, by rw [stored, hrest, List.map_cons], ?_⟩
  simp only [evictOldest, hfirst, hrow]

/-- What is read first is the first arrival of the lowest epoch. -/
theorem Represents.lowest_of_stored {before after rest : List (Nat × Arrival ν)}
    {oldest : Nat × Arrival ν} (h : index.Represents (before ++ oldest :: after))
    (hstored : index.stored = oldest :: rest) :
    (∀ a ∈ before, oldest.2.epoch < a.2.epoch) ∧ ∀ a ∈ after, oldest.2.epoch ≤ a.2.epoch := by
  have hothers : ∀ a ∈ before ++ after,
      oldest.2.epoch < a.2.epoch ∨ (oldest.2.epoch = a.2.epoch ∧ oldest.1 < a.1) := by
    intro a ha
    obtain ⟨ha, hne⟩ := h.mem_append_iff.mp ha
    have hascending := index.stored_ascending
    rw [← h.stored_perm.mem_iff, hstored] at ha
    rw [hstored, List.pairwise_cons] at hascending
    rcases List.mem_cons.mp ha with rfl | ha
    · exact absurd rfl hne
    · exact hascending.1 a ha
  have hbefore := (List.pairwise_append.mp h.ascending).2.2
  constructor
  · intro a ha
    have hlt := hbefore a ha _ List.mem_cons_self
    -- An earlier arrival of the same epoch would be read before the oldest.
    exact (hothers a (List.mem_append_left _ ha)).resolve_right fun hlater => by omega
  · intro a ha
    rcases hothers a (List.mem_append_right _ ha) with hlt | ⟨heq, -⟩
    · exact UInt64.le_of_lt hlt
    · exact UInt64.le_of_eq heq

theorem Represents.evictOldest (h : index.Represents arrivals) (hne : arrivals ≠ []) :
    ∃ before oldest after, arrivals = before ++ oldest :: after ∧
      (∀ a ∈ before, oldest.2.epoch < a.2.epoch) ∧ (∀ a ∈ after, oldest.2.epoch ≤ a.2.epoch) ∧
      index.evictOldest.1 = some oldest.2.value ∧
      index.evictOldest.2.Represents (before ++ after) := by
  obtain ⟨number, epoch, root, value, rest, hstored, hevict⟩ := h.evictOldest_eq hne
  have hmem : (number, (⟨epoch, root, value⟩ : Arrival ν)) ∈ arrivals := by
    rw [← h.stored_perm.mem_iff, hstored]
    exact List.mem_cons_self
  obtain ⟨before, after, rfl⟩ := List.append_of_mem hmem
  obtain ⟨hbefore, hafter⟩ := h.lowest_of_stored hstored
  refine ⟨before, (number, ⟨epoch, root, value⟩), after, rfl, hbefore, hafter, ?_, ?_⟩
  · rw [hevict]
  · rw [hevict]
    exact h.remove

/-- An addition leaves some of the arrivals there were. A new one stands under the next number. -/
theorem Represents.exists_add [BEq ν] (h : index.Represents arrivals) (epoch : Epoch) (root : Root)
    (value : ν) : ∃ arrivals', (index.add epoch root value).2.Represents arrivals' ∧
      arrivals' ⊆ if index.contains epoch root value then arrivals
        else arrivals ++ [(index.nextNumber, ⟨epoch, root, value⟩)] := by
  unfold add
  split
  · exact ⟨arrivals, h, List.Subset.refl _⟩
  · have hgrown := h.grow epoch root value
    simp only
    split
    · obtain ⟨before, oldest, after, hsplit, -, -, -, hrest⟩ := hgrown.evictOldest (by simp)
      refine ⟨before ++ after, hrest, ?_⟩
      rw [hsplit]
      exact ((List.sublist_cons_self oldest after).append_left before).subset
    · exact ⟨_, hgrown, List.Subset.refl _⟩

theorem add_nextNumber [BEq ν] (index : EpochIndex ν) (epoch : Epoch) (root : Root) (value : ν) :
    (index.add epoch root value).2.nextNumber =
      if index.contains epoch root value then index.nextNumber else index.nextNumber + 1 := by
  unfold add
  split
  · rfl
  · simp only
    split
    · obtain ⟨rows, places, size, hframe⟩ := (index.grow epoch root value).evictOldest_frame
      rw [hframe]
      rfl
    · rfl

/-! ## Evicting a root -/

section

variable {places : List (Nat × Epoch)} (rows : Shelves Epoch (Root × ν))

theorem takePlaces_values (hnodup : places.Nodup) :
    (takePlaces rows places).1 =
      places.filterMap fun (number, epoch) => (rows.find? epoch number).map (·.2) := by
  induction places generalizing rows with
  | nil => rfl
  | cons place rest ih =>
    obtain ⟨number, epoch⟩ := place
    obtain ⟨hfresh, hrest⟩ := List.nodup_cons.mp hnodup
    -- Taking one value out does not touch those at the places still to come.
    have hsame : ∀ a ∈ rest, ((rows.remove epoch number).find? a.2 a.1).map (·.2) =
        (rows.find? a.2 a.1).map (·.2) := by
      intro a ha
      rw [Shelves.find?_remove, if_neg]
      rintro ⟨rfl, rfl⟩
      exact hfresh ha
    rw [takePlaces]
    simp only [ih _ hrest, List.filterMap_congr hsame]
    cases hrow : rows.find? epoch number <;> simp [hrow]

theorem find?_takePlaces (places : List (Nat × Epoch)) (epoch : Epoch) (number : Nat)
    (entry : Root × ν) : (takePlaces rows places).2.find? epoch number = some entry ↔
      rows.find? epoch number = some entry ∧ (number, epoch) ∉ places := by
  induction places generalizing rows with
  | nil => simp [takePlaces]
  | cons place rest ih =>
    rw [takePlaces]
    simp only [ih, Shelves.find?_remove, List.mem_cons, not_or, Prod.ext_iff]
    split
    · rename_i hgone
      simp [hgone]
    · rename_i hkept
      tauto

theorem noneEmpty_takePlaces (places : List (Nat × Epoch)) (h : rows.NoneEmpty) :
    (takePlaces rows places).2.NoneEmpty := by
  induction places generalizing rows with
  | nil => exact h
  | cons place rest ih => exact ih _ (h.remove _ _)

end

/-- The places of a root are those of its arrivals, in their order. -/
theorem Represents.toList_places (h : index.Represents arrivals) {root : Root}
    {places : ExtTreeMap Nat Epoch} (hplaces : index.places[root]? = some places) :
    places.toList = (arrivals.filter (·.2.root = root)).map fun a => (a.1, a.2.epoch) := by
  have : Std.Asymm fun a b : Nat × Epoch => a.1 < b.1 := ⟨fun _ _ => Nat.lt_asymm⟩
  refine List.Pairwise.eq_of_mem_iff (r := fun a b => a.1 < b.1) ?_ ?_ ?_
  · exact places.ordered_keys_toList.imp Std.compare_eq_lt.mp
  · rw [List.pairwise_map]
    exact h.ascending.filter _
  · rintro ⟨number, epoch⟩
    have hfind : places[number]? = index.places.find? root number := by
      rw [Shelves.find?, hplaces, Option.bind_some]
    rw [ExtTreeMap.mem_toList_iff_getElem?_eq_some, hfind, h.mem_places]
    simp only [List.mem_map, List.mem_filter, decide_eq_true_eq, Prod.mk.injEq, Prod.exists]
    constructor
    · rintro ⟨value, hmem⟩
      exact ⟨number, _, ⟨hmem, rfl⟩, rfl, rfl⟩
    · rintro ⟨_, ⟨_, _, value⟩, ⟨hmem, rfl⟩, rfl, rfl⟩
      exact ⟨value, hmem⟩

/-- Every place of a root leads to the value of its arrival; none is skipped. -/
theorem Represents.takePlaces_values (h : index.Represents arrivals) {root : Root}
    {places : ExtTreeMap Nat Epoch} (hplaces : index.places[root]? = some places) :
    (takePlaces index.rows places.toList).1 =
      ((arrivals.map (·.2)).filter (·.root = root)).map (·.value) := by
  have hnodup : places.toList.Nodup := by
    rw [h.toList_places hplaces, List.Nodup, List.pairwise_map]
    refine List.Pairwise.imp ?_ (h.ascending.filter _)
    intro a b hlt heq
    exact Nat.ne_of_lt hlt (Prod.ext_iff.mp heq).1
  have hrow : ∀ a ∈ arrivals.filter (·.2.root = root),
      (index.rows.find? a.2.epoch a.1).map (·.2) = some a.2.value := by
    intro a ha
    rw [(h.mem_rows ..).mpr (List.mem_filter.mp ha).1]
    rfl
  rw [EpochIndex.takePlaces_values _ hnodup, h.toList_places hplaces, List.filterMap_map,
    List.filter_map, List.map_map]
  exact (List.filterMap_congr hrow).trans (by simp [Function.comp_def])

theorem Represents.takePlaces (h : index.Represents arrivals) {root : Root}
    {places : ExtTreeMap Nat Epoch} (hplaces : index.places[root]? = some places) :
    Represents { index with
      rows := (takePlaces index.rows places.toList).2
      places := index.places.erase root
      size := index.size - (takePlaces index.rows places.toList).1.length }
      (arrivals.filter (·.2.root ≠ root)) where
  ascending := h.ascending.filter _
  number_lt := fun a ha => h.number_lt a (List.mem_filter.mp ha).1
  mem_rows := by
    intro epoch number root' value
    rw [find?_takePlaces, h.mem_rows, h.toList_places hplaces, List.mem_filter]
    refine and_congr_right fun hmem => ?_
    simp only [List.mem_map, List.mem_filter, decide_eq_true_eq, Prod.mk.injEq, ne_eq, not_iff_not]
    constructor
    · rintro ⟨a, ⟨ha, rfl⟩, hnumber, -⟩
      rw [h.eq_of_number ha hmem hnumber]
    · rintro rfl
      exact ⟨_, ⟨hmem, rfl⟩, rfl, rfl⟩
  mem_places := by
    intro root' number epoch
    rw [Shelves.find?_erase]
    simp only [List.mem_filter, decide_eq_true_eq, exists_and_right, ← h.mem_places]
    split
    · rename_i heq
      simp [heq]
    · rename_i hne
      simp [Ne.symm hne]
  rows_noneEmpty := noneEmpty_takePlaces _ _ h.rows_noneEmpty
  places_noneEmpty := h.places_noneEmpty.erase _
  size_eq := by
    -- The arrivals of the root and the others add up to all.
    have hlength := List.length_eq_length_filter_add (l := arrivals) (·.2.root = root)
    show index.size - _ = _
    rw [h.takePlaces_values hplaces, h.size_eq, List.length_map, List.filter_map, List.length_map]
    simp only [ne_eq, decide_not, Function.comp_def] at hlength ⊢
    omega

/-- Evicting a root changes nothing but the maps and the size. -/
theorem evict_frame (index : EpochIndex ν) (root : Root) :
    ∃ rows places size, (index.evict root).2 = { index with rows, places, size } := by
  unfold evict
  split <;> exact ⟨_, _, _, rfl⟩

theorem Represents.evict (h : index.Represents arrivals) (root : Root) :
    (index.evict root).1 = ((arrivals.map (·.2)).filter (·.root = root)).map (·.value) ∧
      (index.evict root).2.Represents (arrivals.filter (·.2.root ≠ root)) := by
  unfold EpochIndex.evict
  cases hplaces : index.places[root]? with
  | none =>
    -- A root without places has no arrivals.
    have hother : ∀ a ∈ arrivals, a.2.root ≠ root := by
      rintro ⟨number, epoch, root', value⟩ hmem rfl
      have hplace := (h.mem_places ..).mpr ⟨value, hmem⟩
      rw [Shelves.find?, hplaces] at hplace
      cases hplace
    constructor
    · rw [List.filter_map, List.filter_eq_nil_iff.mpr, List.map_nil, List.map_nil]
      simpa using hother
    · rw [List.filter_eq_self.mpr (by simpa using hother)]
      exact h
  | some places => exact ⟨h.takePlaces_values hplaces, h.takePlaces hplaces⟩

/-! ## Moving the baseline -/

theorem find?_forgetPlaces (places : Shelves Root Epoch) (dropped : List (Nat × Root × ν))
    (root : Root) (number : Nat) (epoch : Epoch) :
    (forgetPlaces places dropped).find? root number = some epoch ↔
      places.find? root number = some epoch ∧ ∀ value, (number, root, value) ∉ dropped := by
  unfold forgetPlaces
  -- The places change with every entry, so the claim is for all of them at once.
  induction dropped generalizing places with
  | nil => simp
  | cons entry rest ih =>
    obtain ⟨number', root', value'⟩ := entry
    rw [List.foldl_cons, ih, Shelves.find?_remove]
    simp only [List.mem_cons, Prod.mk.injEq, not_or, forall_and]
    split
    · rename_i hgone
      obtain ⟨rfl, rfl⟩ := hgone
      simp
    · rename_i hkept
      tauto

theorem noneEmpty_forgetPlaces {places : Shelves Root Epoch} (h : places.NoneEmpty)
    (dropped : List (Nat × Root × ν)) : (forgetPlaces places dropped).NoneEmpty := by
  unfold forgetPlaces
  induction dropped generalizing places with
  | nil => exact h
  | cons entry rest ih => exact ih (h.remove _ _)

/-- The values of the rows before `baseline`. -/
theorem Represents.mem_dropped (h : index.Represents arrivals) (baseline : Epoch) (number : Nat)
    (root : Root) (value : ν) :
    (number, root, value) ∈
        Shelves.entries (index.rows.filter fun epoch _ => epoch < baseline) ↔
      ∃ epoch < baseline, (number, ⟨epoch, root, value⟩) ∈ arrivals := by
  rw [Shelves.entries_eq_map_labelled]
  simp only [List.mem_map, Prod.exists, Shelves.mem_labelled, Shelves.find?_filterKeys,
    ← h.mem_rows]
  constructor
  · rintro ⟨epoch, _, _, _, hrow, heq⟩
    cases heq
    split at hrow
    · rename_i hlt
      exact ⟨epoch, of_decide_eq_true hlt, hrow⟩
    · cases hrow
  · rintro ⟨epoch, hlt, hrow⟩
    exact ⟨epoch, number, root, value, by rw [if_pos (decide_eq_true hlt), hrow], rfl⟩

theorem Represents.length_dropped (h : index.Represents arrivals) (baseline : Epoch) :
    (Shelves.entries (index.rows.filter fun epoch _ => epoch < baseline)).length =
      ((arrivals.map (·.2)).filter (·.epoch < baseline)).length := by
  have hperm := h.stored_perm.filter (·.2.epoch < baseline)
  rw [stored, List.filter_map] at hperm
  rw [Shelves.entries_eq_map_labelled, Shelves.labelled_filterKeys, List.length_map,
    List.filter_map, List.length_map]
  exact (List.length_map _).symm.trans hperm.length_eq

theorem Represents.moveBaseline (h : index.Represents arrivals) {baseline : Epoch}
    (hahead : ¬baseline ≤ index.baseline) :
    (index.moveBaseline baseline).1 =
        ((arrivals.map (·.2)).filter (·.epoch < baseline)).length ∧
      (index.moveBaseline baseline).2.Represents (arrivals.filter (baseline ≤ ·.2.epoch)) := by
  rw [EpochIndex.moveBaseline, if_neg hahead]
  refine ⟨h.length_dropped baseline, ?_⟩
  exact {
    ascending := h.ascending.filter _
    number_lt := fun a ha => h.number_lt a (List.mem_filter.mp ha).1
    mem_rows := by
      intro epoch number root value
      rw [Shelves.find?_filterKeys, List.mem_filter, ← h.mem_rows]
      split
      · rename_i hkept
        simp [hkept]
      · rename_i hgone
        simp [hgone]
    mem_places := by
      intro root number epoch
      rw [find?_forgetPlaces, h.mem_places]
      simp only [h.mem_dropped, List.mem_filter, decide_eq_true_eq, exists_and_right]
      apply and_congr_right
      rintro ⟨value, hmem⟩
      -- A place is forgotten with its number, and that has only the epoch of its arrival.
      constructor
      · intro hkept
        rw [← UInt64.not_lt]
        exact fun hlt => hkept value ⟨epoch, hlt, hmem⟩
      · rintro hle value' ⟨epoch', hlt, hmem'⟩
        cases h.eq_of_number hmem' hmem rfl
        exact UInt64.not_lt.mpr hle hlt
    rows_noneEmpty := h.rows_noneEmpty.filterKeys _
    places_noneEmpty := noneEmpty_forgetPlaces h.places_noneEmpty _
    size_eq := by
      have hlength := List.length_eq_length_filter_add (l := arrivals) (·.2.epoch < baseline)
      show index.size - _ = _
      rw [h.length_dropped, h.size_eq, List.filter_map, List.length_map]
      simp only [Function.comp_def, ← decide_not, UInt64.not_lt] at hlength ⊢
      omega
  }

/-- The baseline only moves forward. -/
theorem moveBaseline_frame (index : EpochIndex ν) (baseline : Epoch) : ∃ rows places size,
    (index.moveBaseline baseline).2 =
      { index with rows, places, size, baseline := max index.baseline baseline } := by
  by_cases hbehind : baseline ≤ index.baseline
  · rw [max_eq_of_ge hbehind, EpochIndex.moveBaseline, if_pos hbehind]
    exact ⟨_, _, _, rfl⟩
  · rw [max_eq_of_le (UInt64.le_of_lt (UInt64.not_le.mp hbehind)), EpochIndex.moveBaseline,
      if_neg hbehind]
    exact ⟨_, _, _, rfl⟩

end AttestationIntake.EpochIndex
