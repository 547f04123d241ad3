import AttestationIntake.Proofs.EpochIndex.ArrivalList
import Mathlib.Data.List.DropRight
import Mathlib.Data.List.Sort

/-!
Arrivals by epoch. The order in which values are read is that of arrival within an epoch, so a new
arrival goes behind all of its epoch, and the first of the lowest epoch stands in front. The newest
arrivals are the last in this order.
-/

namespace AttestationIntake

variable {ν : Type}

/-! ## The last of a list -/

section

variable {α : Type} {l : List α}

theorem length_rtake_le (count : Nat) (l : List α) : (l.rtake count).length ≤ count := by
  rw [List.rtake, List.length_drop]
  omega

theorem rtake_of_length_le {count : Nat} (h : l.length ≤ count) : l.rtake count = l := by
  rw [List.rtake, Nat.sub_eq_zero_of_le h, List.drop_zero]

theorem rtake_append_of_le (front : List α) {count : Nat} (h : count ≤ l.length) :
    (front ++ l).rtake count = l.rtake count := by
  have hlength : (front ++ l).length - count = front.length + (l.length - count) := by
    rw [List.length_append]
    omega
  rw [List.rtake, hlength, List.rtake, List.drop_length_add_append]

theorem exists_eq_append_rtake {count : Nat} (h : count < l.length) :
    ∃ front back, l = front ++ back ∧ l.rtake count = back ∧ back.length = count := by
  refine ⟨_, _, (List.take_append_drop (l.length - count) l).symm, rfl, ?_⟩
  rw [List.length_drop]
  omega

end

namespace Arrival

/-- By epoch and within an epoch in the order of arrival. -/
def byEpoch (arrivals : List (Arrival ν)) : List (Arrival ν) :=
  arrivals.mergeSort fun a b => a.epoch ≤ b.epoch

/-- The last so many arrivals by epoch and order of arrival, in that order. -/
def newest (count : Nat) (arrivals : List (Arrival ν)) : List (Arrival ν) :=
  (byEpoch arrivals).rtake count

/-- Puts an arrival behind all of its epoch and before all of later ones. -/
def insertByEpoch (a : Arrival ν) (arrivals : List (Arrival ν)) : List (Arrival ν) :=
  arrivals.orderedInsert (·.epoch < ·.epoch) a

def Ascending (arrivals : List (Arrival ν)) : Prop :=
  arrivals.Pairwise fun a b => a.epoch ≤ b.epoch

variable {arrivals front back : List (Arrival ν)} {a : Arrival ν} {keep : Arrival ν → Bool}

/-! ## Inserting -/

@[simp]
theorem mem_insertByEpoch {b : Arrival ν} : b ∈ a.insertByEpoch arrivals ↔ b = a ∨ b ∈ arrivals :=
  List.mem_orderedInsert _

@[simp]
theorem length_insertByEpoch : (a.insertByEpoch arrivals).length = arrivals.length + 1 :=
  List.orderedInsert_length _ _ _

theorem insertByEpoch_cons (a b : Arrival ν) (arrivals : List (Arrival ν)) :
    a.insertByEpoch (b :: arrivals) =
      if a.epoch < b.epoch then a :: b :: arrivals else b :: a.insertByEpoch arrivals :=
  List.orderedInsert_cons _ _ _ _

theorem insertByEpoch_of_lt (h : ∀ b ∈ arrivals, a.epoch < b.epoch) :
    a.insertByEpoch arrivals = a :: arrivals := by
  cases arrivals with
  | nil => rfl
  | cons b arrivals => rw [insertByEpoch_cons, if_pos (h b List.mem_cons_self)]

/-- What is not later stays in front. -/
theorem insertByEpoch_append_of_le (h : ∀ b ∈ front, b.epoch ≤ a.epoch) :
    a.insertByEpoch (front ++ back) = front ++ a.insertByEpoch back := by
  induction front with
  | nil => rfl
  | cons b front ih =>
    have hfront := List.forall_mem_cons.mp h
    rw [List.cons_append, insertByEpoch_cons, if_neg (UInt64.not_lt.mpr hfront.1), ih hfront.2]
    rfl

/-- Behind something later nothing changes. -/
theorem insertByEpoch_append_of_exists (h : ∃ b ∈ front, a.epoch < b.epoch) :
    a.insertByEpoch (front ++ back) = a.insertByEpoch front ++ back := by
  induction front with
  | nil => simp at h
  | cons b front ih =>
    rw [List.cons_append, insertByEpoch_cons, insertByEpoch_cons]
    split
    · rfl
    · rename_i hle
      obtain ⟨c, hmem, hlt⟩ := h
      rcases List.mem_cons.mp hmem with rfl | hmem
      · exact absurd hlt hle
      · rw [ih ⟨c, hmem, hlt⟩]
        rfl

namespace Ascending

theorem insertByEpoch (h : Ascending arrivals) (a : Arrival ν) :
    Ascending (a.insertByEpoch arrivals) := by
  induction arrivals with
  | nil => exact List.pairwise_singleton ..
  | cons b arrivals ih =>
    obtain ⟨hfirst, hrest⟩ := List.pairwise_cons.mp h
    rw [insertByEpoch_cons]
    split
    · rename_i hlt
      refine List.pairwise_cons.mpr ⟨?_, h⟩
      intro c hc
      rcases List.mem_cons.mp hc with rfl | hc
      · exact UInt64.le_of_lt hlt
      · exact UInt64.le_trans (UInt64.le_of_lt hlt) (hfirst c hc)
    · rename_i hle
      refine List.pairwise_cons.mpr ⟨?_, ih hrest⟩
      intro c hc
      rcases mem_insertByEpoch.mp hc with rfl | hc
      · exact UInt64.not_lt.mp hle
      · exact hfirst c hc

theorem filter_insertByEpoch (h : Ascending arrivals) (ha : keep a = true) :
    (a.insertByEpoch arrivals).filter keep = a.insertByEpoch (arrivals.filter keep) := by
  induction arrivals with
  | nil => simp [Arrival.insertByEpoch, ha]
  | cons b arrivals ih =>
    obtain ⟨hfirst, hrest⟩ := List.pairwise_cons.mp h
    rw [insertByEpoch_cons]
    split
    · rename_i hlt
      rw [insertByEpoch_of_lt, List.filter_cons_of_pos ha]
      intro c hc
      rcases List.mem_cons.mp (List.mem_of_mem_filter hc) with rfl | hc
      · exact hlt
      · exact UInt64.lt_of_lt_of_le hlt (hfirst c hc)
    · rename_i hle
      rw [List.filter_cons, List.filter_cons, ih hrest]
      split
      · rw [insertByEpoch_cons, if_neg hle]
      · rfl

/-- What ascends is lower in front than behind. -/
theorem le_of_mem_append {b c : Arrival ν} (h : Ascending (front ++ back)) (hb : b ∈ front)
    (hc : c ∈ back) : b.epoch ≤ c.epoch :=
  (List.pairwise_append.mp h).2.2 b hb c hc

end Ascending

theorem filter_insertByEpoch_of_false (ha : keep a = false) :
    (a.insertByEpoch arrivals).filter keep = arrivals.filter keep := by
  induction arrivals with
  | nil => simp [insertByEpoch, ha]
  | cons b arrivals ih =>
    rw [insertByEpoch_cons]
    split
    · rw [List.filter_cons_of_neg (by simp [ha])]
    · rw [List.filter_cons, List.filter_cons, ih]

/-! ## Sorting -/

theorem ascending_byEpoch (arrivals : List (Arrival ν)) : Ascending (byEpoch arrivals) :=
  sortByEpoch_pairwise Arrival.epoch arrivals

@[simp]
theorem mem_byEpoch : a ∈ byEpoch arrivals ↔ a ∈ arrivals := List.mem_mergeSort

@[simp]
theorem length_byEpoch : (byEpoch arrivals).length = arrivals.length := List.length_mergeSort _

theorem byEpoch_filter : byEpoch (arrivals.filter keep) = (byEpoch arrivals).filter keep :=
  sortByEpoch_filter Arrival.epoch arrivals keep

theorem filter_byEpoch (arrivals : List (Arrival ν)) (epoch : Epoch) :
    (byEpoch arrivals).filter (·.epoch = epoch) = arrivals.filter (·.epoch = epoch) :=
  filter_sortByEpoch Arrival.epoch arrivals epoch

/-- One more arrival takes its place among those sorted before. -/
theorem byEpoch_concat (arrivals : List (Arrival ν)) (a : Arrival ν) :
    byEpoch (arrivals ++ [a]) = a.insertByEpoch (byEpoch arrivals) := by
  have hascending := ascending_byEpoch arrivals
  apply eq_of_filter_epoch Arrival.epoch (ascending_byEpoch _) (hascending.insertByEpoch a)
  intro epoch
  rw [filter_byEpoch, List.filter_append]
  by_cases hepoch : a.epoch = epoch
  · have hlast : a.insertByEpoch (arrivals.filter (·.epoch = epoch) ++ []) =
        arrivals.filter (·.epoch = epoch) ++ [a] := by
      apply insertByEpoch_append_of_le
      intro b hb
      have hb := of_decide_eq_true (List.mem_filter.mp hb).2
      exact UInt64.le_of_eq (hb.trans hepoch.symm)
    rw [List.append_nil] at hlast
    rw [hascending.filter_insertByEpoch (decide_eq_true hepoch), filter_byEpoch, hlast]
    simp [hepoch]
  · rw [filter_insertByEpoch_of_false (decide_eq_false hepoch), filter_byEpoch]
    simp [hepoch]

/-- The first arrival of the lowest epoch is sorted to the front. -/
theorem byEpoch_oldest {oldest : Arrival ν} (hfront : ∀ b ∈ front, oldest.epoch < b.epoch)
    (hback : ∀ b ∈ back, oldest.epoch ≤ b.epoch) :
    byEpoch (front ++ oldest :: back) = oldest :: byEpoch (front ++ back) := by
  apply eq_of_filter_epoch Arrival.epoch (ascending_byEpoch _)
  · refine List.pairwise_cons.mpr ⟨?_, ascending_byEpoch _⟩
    intro b hb
    rcases List.mem_append.mp (mem_byEpoch.mp hb) with hb | hb
    · exact UInt64.le_of_lt (hfront b hb)
    · exact hback b hb
  · intro epoch
    rw [filter_byEpoch, List.filter_append, List.filter_cons, List.filter_cons, filter_byEpoch,
      List.filter_append]
    split
    · rename_i hepoch
      have hnone : front.filter (·.epoch = epoch) = [] := by
        rw [List.filter_eq_nil_iff]
        intro b hb heq
        have hlt := hfront b hb
        rw [of_decide_eq_true hepoch, of_decide_eq_true heq] at hlt
        exact UInt64.lt_irrefl _ hlt
      rw [hnone]
      rfl
    · rfl

/-! ## The newest -/

/-- Which are the last after an insertion depends on those alone that were the last before it. -/
theorem Ascending.rtake_insertByEpoch (h : Ascending arrivals) (a : Arrival ν) (count : Nat) :
    (a.insertByEpoch arrivals).rtake count =
      (a.insertByEpoch (arrivals.rtake count)).rtake count := by
  by_cases hall : arrivals.length ≤ count
  · rw [rtake_of_length_le hall]
  · obtain ⟨front, back, rfl, hback, rfl⟩ := exists_eq_append_rtake (Nat.lt_of_not_le hall)
    rw [hback]
    by_cases hlater : ∃ b ∈ front, a.epoch < b.epoch
    -- The new arrival goes into the front and is the first of those behind it.
    · have hfirst : ∀ c ∈ back, a.epoch < c.epoch := by
        intro c hc
        obtain ⟨b, hb, hlt⟩ := hlater
        exact UInt64.lt_of_lt_of_le hlt (h.le_of_mem_append hb hc)
      rw [insertByEpoch_append_of_exists hlater, insertByEpoch_of_lt hfirst,
        rtake_append_of_le _ (Nat.le_refl _)]
      exact (rtake_append_of_le [a] (Nat.le_refl _)).symm
    · have hbefore : ∀ b ∈ front, b.epoch ≤ a.epoch := fun b hb =>
        UInt64.not_lt.mp fun hlt => hlater ⟨b, hb, hlt⟩
      rw [insertByEpoch_append_of_le hbefore, rtake_append_of_le front]
      rw [length_insertByEpoch]
      exact Nat.le_succ _

/-- Where all from some epoch on find room, they are among the last. -/
theorem Ascending.filter_rtake (h : Ascending arrivals) {baseline : Epoch} {count : Nat}
    (hroom : (arrivals.filter (baseline ≤ ·.epoch)).length ≤ count) :
    (arrivals.rtake count).filter (baseline ≤ ·.epoch) =
      arrivals.filter (baseline ≤ ·.epoch) := by
  by_cases hall : arrivals.length ≤ count
  · rw [rtake_of_length_le hall]
  · obtain ⟨front, back, rfl, hback, rfl⟩ := exists_eq_append_rtake (Nat.lt_of_not_le hall)
    have hnone : front.filter (baseline ≤ ·.epoch) = [] := by
      rw [List.filter_eq_nil_iff]
      intro b hb hle
      -- Then all of the last are as late, and together with this one they are too many.
      have hlast : back.filter (baseline ≤ ·.epoch) = back := by
        rw [List.filter_eq_self]
        intro c hc
        exact decide_eq_true (UInt64.le_trans (of_decide_eq_true hle) (h.le_of_mem_append hb hc))
      have hpos : 0 < (front.filter (baseline ≤ ·.epoch)).length :=
        List.length_pos_of_mem (List.mem_filter.mpr ⟨hb, hle⟩)
      rw [List.filter_append, hlast, List.length_append] at hroom
      omega
    rw [hback, List.filter_append, hnone]
    rfl

theorem ascending_newest (count : Nat) (arrivals : List (Arrival ν)) :
    Ascending (newest count arrivals) :=
  List.Pairwise.sublist (List.drop_sublist _ _) (ascending_byEpoch arrivals)

theorem mem_of_mem_newest {count : Nat} (h : a ∈ newest count arrivals) : a ∈ arrivals :=
  mem_byEpoch.mp (List.mem_of_mem_drop h)

theorem newest_concat (count : Nat) (arrivals : List (Arrival ν)) (a : Arrival ν) :
    newest count (arrivals ++ [a]) = (a.insertByEpoch (newest count arrivals)).rtake count := by
  rw [newest, byEpoch_concat, (ascending_byEpoch arrivals).rtake_insertByEpoch, newest]

end Arrival

end AttestationIntake
