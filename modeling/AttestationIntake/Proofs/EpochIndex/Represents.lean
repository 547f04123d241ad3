import AttestationIntake.Proofs.EpochIndex.ArrivalList
import AttestationIntake.Proofs.EpochIndex.Shelves
import Mathlib.Data.List.Nodup

/-!
What an epoch index stands for: a list of numbered arrivals that its rows, its places and its size
agree on. Each change of the index is a change of that list.
-/

namespace AttestationIntake

open Std (ExtTreeMap)

variable {ν : Type}

namespace EpochIndex

/-- The rows, the places and the size of an index all say that it holds these arrivals. The numbers
ascend, so the list has the order of arrival. -/
structure Represents (index : EpochIndex ν) (arrivals : List (Nat × Arrival ν)) : Prop where
  ascending : arrivals.Pairwise fun a b => a.1 < b.1
  number_lt : ∀ a ∈ arrivals, a.1 < index.nextNumber
  mem_rows : ∀ epoch number root value, index.rows.find? epoch number = some (root, value) ↔
    (number, ⟨epoch, root, value⟩) ∈ arrivals
  mem_places : ∀ root number epoch, index.places.find? root number = some epoch ↔
    ∃ value, (number, ⟨epoch, root, value⟩) ∈ arrivals
  rows_noneEmpty : index.rows.NoneEmpty
  places_noneEmpty : index.places.NoneEmpty
  size_eq : index.size = arrivals.length

theorem represents_empty (tracked : UInt64) (capacity : Capacity) :
    (empty tracked capacity : EpochIndex ν).Represents [] where
  ascending := .nil
  number_lt := by simp
  mem_rows := by simp [empty]
  mem_places := by simp [empty]
  rows_noneEmpty := Shelves.noneEmpty_empty
  places_noneEmpty := Shelves.noneEmpty_empty
  size_eq := rfl

/-- All that an index stores with its numbers, in the order in which values are read. -/
def stored (index : EpochIndex ν) : List (Nat × Arrival ν) :=
  index.rows.labelled.map fun (epoch, number, root, value) => (number, ⟨epoch, root, value⟩)

theorem mem_stored (index : EpochIndex ν) (number : Nat) (epoch : Epoch) (root : Root)
    (value : ν) : (number, ⟨epoch, root, value⟩) ∈ index.stored ↔
      index.rows.find? epoch number = some (root, value) := by
  rw [← Shelves.mem_labelled]
  simp only [stored, List.mem_map, Prod.exists, Prod.mk.injEq, Arrival.mk.injEq]
  constructor
  · rintro ⟨_, _, _, _, hmem, rfl, rfl, rfl, rfl⟩
    exact hmem
  · intro hmem
    exact ⟨epoch, number, root, value, hmem, rfl, rfl, rfl, rfl⟩

theorem stored_ascending (index : EpochIndex ν) : index.stored.Pairwise fun a b =>
    a.2.epoch < b.2.epoch ∨ (a.2.epoch = b.2.epoch ∧ a.1 < b.1) := by
  rw [stored, List.pairwise_map]
  exact index.rows.labelled_ascending.imp (Or.imp_left Std.compare_eq_lt.mp)

theorem stored_nodup (index : EpochIndex ν) : index.stored.Nodup := by
  refine index.stored_ascending.imp ?_
  rintro a b (hlt | ⟨-, hlt⟩) rfl
  · exact UInt64.lt_irrefl _ hlt
  · omega

theorem values_eq_map_stored (index : EpochIndex ν) :
    index.values = index.stored.map (·.2.value) := by
  simp [values, stored, Shelves.entries_eq_map_labelled, Function.comp_def]

theorem contains_iff [BEq ν] (index : EpochIndex ν) (epoch : Epoch) (root : Root) (value : ν) :
    index.contains epoch root value = true ↔
      ∃ number root' stored, index.places.find? root number = some epoch ∧
        index.rows.find? epoch number = some (root', stored) ∧ (stored == value) = true := by
  unfold contains Shelves.find?
  cases index.places[root]? with
  | none => simp
  | some places =>
    cases index.rows[epoch]? with
    | none => simp
    | some row =>
      simp only [List.any_eq_true, Prod.exists, ExtTreeMap.mem_toList_iff_getElem?_eq_some,
        Bool.and_eq_true, decide_eq_true_eq, Option.any_eq_true, Option.bind_some]
      constructor
      · rintro ⟨number, _, hplace, rfl, root', stored, hrow, heq⟩
        exact ⟨number, root', stored, hplace, hrow, heq⟩
      · rintro ⟨number, root', stored, hplace, hrow, heq⟩
        exact ⟨number, epoch, hplace, rfl, root', stored, hrow, heq⟩

variable {index : EpochIndex ν} {arrivals : List (Nat × Arrival ν)}

namespace Represents

theorem nodup_numbers (h : index.Represents arrivals) : (arrivals.map Prod.fst).Nodup := by
  rw [List.Nodup, List.pairwise_map]
  exact h.ascending.imp Nat.ne_of_lt

theorem nodup (h : index.Represents arrivals) : arrivals.Nodup := h.nodup_numbers.of_map

/-- A number belongs to one arrival. -/
theorem eq_of_number {a b : Nat × Arrival ν} (h : index.Represents arrivals) (ha : a ∈ arrivals)
    (hb : b ∈ arrivals) (hnumber : a.1 = b.1) : a = b :=
  List.inj_on_of_nodup_map h.nodup_numbers ha hb hnumber

/-! ## Reading -/

/-- An index stores the arrivals, only in another order. -/
theorem stored_perm (h : index.Represents arrivals) : index.stored.Perm arrivals := by
  rw [List.perm_ext_iff_of_nodup index.stored_nodup h.nodup]
  rintro ⟨number, epoch, root, value⟩
  rw [mem_stored, h.mem_rows]

theorem length_entries (h : index.Represents arrivals) :
    index.rows.entries.length = arrivals.length := by
  rw [Shelves.entries_eq_map_labelled, List.length_map, ← h.stored_perm.length_eq, stored,
    List.length_map]

/-- What an index stores is what arrived, sorted by epoch. -/
theorem stored_eq (h : index.Represents arrivals) :
    index.stored = arrivals.mergeSort fun a b => a.2.epoch ≤ b.2.epoch := by
  refine (h.stored_perm.trans (List.mergeSort_perm ..).symm).eq_of_pairwise ?_
    index.stored_ascending (sortByEpoch_ascending (·.2.epoch) h.ascending)
  rintro a b - - (hab | ⟨heq, hab⟩) (hba | ⟨heq', hba⟩)
  · exact absurd hba (UInt64.lt_asymm hab)
  · exact absurd hab (heq' ▸ UInt64.lt_irrefl _)
  · exact absurd hba (heq ▸ UInt64.lt_irrefl _)
  · omega

theorem values_eq (h : index.Represents arrivals) :
    index.values =
      ((arrivals.map (·.2)).mergeSort fun a b => a.epoch ≤ b.epoch).map (·.value) := by
  have hsort : (arrivals.mergeSort fun a b => a.2.epoch ≤ b.2.epoch).map (·.2) =
      (arrivals.map (·.2)).mergeSort fun a b => a.epoch ≤ b.epoch :=
    List.map_mergeSort fun _ _ _ _ => rfl
  rw [values_eq_map_stored, h.stored_eq, ← hsort, List.map_map]
  rfl

theorem contains_eq [BEq ν] (h : index.Represents arrivals) (epoch : Epoch) (root : Root)
    (value : ν) : index.contains epoch root value =
      (arrivals.map (·.2)).any fun a => a.epoch = epoch && a.root = root && a.value == value := by
  rw [Bool.eq_iff_iff, contains_iff]
  simp only [List.any_map, List.any_eq_true, Function.comp_apply, Bool.and_eq_true,
    decide_eq_true_eq]
  constructor
  · rintro ⟨number, root', stored, hplace, hrow, heq⟩
    obtain ⟨value', hmem⟩ := (h.mem_places ..).mp hplace
    have hrow' := (h.mem_rows ..).mp hrow
    -- The place and the row have one number, so they are of one arrival.
    cases h.eq_of_number hmem hrow' rfl
    exact ⟨_, hmem, ⟨rfl, rfl⟩, heq⟩
  · rintro ⟨⟨number, epoch', root', stored⟩, hmem, ⟨rfl, rfl⟩, heq⟩
    exact ⟨number, root', stored, (h.mem_places ..).mpr ⟨stored, hmem⟩,
      (h.mem_rows ..).mpr hmem, heq⟩

end Represents

end EpochIndex

end AttestationIntake
