import AttestationIntake.Proofs.EpochIndex.ByEpoch
import AttestationIntake.Proofs.EpochIndex.Composition
import AttestationIntake.Proofs.EpochIndex.WellFormed

/-!
What an epoch index keeps. It drops arrivals for two reasons, one at a time when it is full and whole
epochs when its window moves on, and each of them makes room that changes what the other drops later.
When they fall does not matter in the end: what is left are the newest of all arrivals, as many as
there is room for, as far as they are not behind the window.
-/

namespace AttestationIntake

variable {ν : Type}

/-! ## Calls that add and move the window -/

namespace IndexCall

/-- What a call adds. -/
def addition? : IndexCall ν → Option (Arrival ν)
  | .add epoch root value => some ⟨epoch, root, value⟩
  | _ => none

def additions (calls : List (IndexCall ν)) : List (Arrival ν) := calls.filterMap addition?

/-- Where a call moves the window to. -/
def baseline? : IndexCall ν → Option Epoch
  | .moveBaseline baseline => some baseline
  | _ => none

/-- The greatest epoch that the window is moved to, or the first of all if it is never moved. -/
def latestBaseline (calls : List (IndexCall ν)) : Epoch := (calls.filterMap baseline?).foldl max 0

/-- Whether a call adds nothing before the baseline and takes out no root. -/
def IsAhead (baseline : Epoch) : IndexCall ν → Prop
  | .add epoch _ _ => baseline ≤ epoch
  | .evict _ => False
  | .moveBaseline _ => True

instance (baseline : Epoch) : (call : IndexCall ν) → Decidable (call.IsAhead baseline)
  | .add epoch _ _ => inferInstanceAs (Decidable (baseline ≤ epoch))
  | .evict _ => isFalse id
  | .moveBaseline _ => isTrue trivial

end IndexCall

open IndexCall (additions latestBaseline)

/-- Every call is ahead of the baseline that the index has by then. -/
def EpochIndex.StaysAhead [BEq ν] (index : EpochIndex ν) : List (IndexCall ν) → Prop
  | [] => True
  | call :: calls => call.IsAhead index.baseline ∧ StaysAhead (index.step call).2 calls

instance EpochIndex.decidableStaysAhead [BEq ν] (index : EpochIndex ν) :
    (calls : List (IndexCall ν)) → Decidable (index.StaysAhead calls)
  | [] => isTrue trivial
  | call :: calls =>
      have := decidableStaysAhead (index.step call).2 calls
      inferInstanceAs (Decidable (call.IsAhead index.baseline ∧ _))

namespace ArrivalList

open Arrival (byEpoch newest)

/-- Of the newest that there is room for, the list has those that are not behind its window. -/
def HoldsNewest (list : ArrivalList ν) (added : List (Arrival ν)) : Prop :=
  byEpoch list.arrivals = (newest list.capacity.toNat added).filter (list.baseline ≤ ·.epoch)

variable {list : ArrivalList ν} {added : List (Arrival ν)}

namespace HoldsNewest

theorem empty (tracked : UInt64) (capacity : Capacity) :
    (ArrivalList.empty tracked capacity : ArrivalList ν).HoldsNewest [] := by
  have hnone : byEpoch ([] : List (Arrival ν)) = [] := List.mergeSort_nil
  show byEpoch [] = (newest _ []).filter _
  rw [newest, hnone, List.rtake_nil, List.filter_nil]

theorem mem_added (h : list.HoldsNewest added) {a : Arrival ν} (ha : a ∈ list.arrivals) :
    a ∈ added := by
  rw [← Arrival.mem_byEpoch, h] at ha
  exact Arrival.mem_of_mem_newest (List.mem_of_mem_filter ha)

theorem length_le (h : list.HoldsNewest added) :
    list.arrivals.length ≤ (newest list.capacity.toNat added).length := by
  rw [← Arrival.length_byEpoch, h]
  exact List.length_filter_le _ _

theorem moveBaseline (h : list.HoldsNewest added) (baseline : Epoch) :
    (list.moveBaseline baseline).2.HoldsNewest added := by
  unfold ArrivalList.moveBaseline
  split
  · exact h
  · rename_i hahead
    show byEpoch _ = (newest _ _).filter _
    have hlater := UInt64.le_of_lt (UInt64.not_le.mp hahead)
    rw [Arrival.byEpoch_filter, h, EpochIndex.filter_epoch_filter_epoch Arrival.epoch _ hlater]

theorem length_newest_le (list : ArrivalList ν) (added : List (Arrival ν)) :
    (newest list.capacity.toNat added).length ≤ list.capacity.toNat := length_rtake_le ..

/-- A list that is full has all of the newest, so none of them is behind its window. -/
theorem filter_newest_of_full (h : list.HoldsNewest added)
    (hfull : list.capacity.toNat ≤ list.arrivals.length) :
    (newest list.capacity.toNat added).filter (list.baseline ≤ ·.epoch) =
      newest list.capacity.toNat added := by
  apply List.filter_sublist.eq_of_length_le
  have hbound := length_newest_le list added
  rw [← h, Arrival.length_byEpoch]
  omega

variable {a : Arrival ν}

theorem filter_insertByEpoch_newest (list : ArrivalList ν) (added : List (Arrival ν))
    (hahead : list.baseline ≤ a.epoch) :
    (a.insertByEpoch (newest list.capacity.toNat added)).filter (list.baseline ≤ ·.epoch) =
      a.insertByEpoch ((newest list.capacity.toNat added).filter (list.baseline ≤ ·.epoch)) :=
  (Arrival.ascending_newest ..).filter_insertByEpoch (decide_eq_true hahead)

/-- While there is room, all that is cut off is behind the window. -/
theorem append (h : list.HoldsNewest added) (hahead : list.baseline ≤ a.epoch)
    (hroom : list.arrivals.length < list.capacity.toNat) :
    HoldsNewest { list with arrivals := list.arrivals ++ [a] } (added ++ [a]) := by
  have hinsert := filter_insertByEpoch_newest list added hahead
  have hascending := (Arrival.ascending_newest list.capacity.toNat added).insertByEpoch a
  show byEpoch (list.arrivals ++ [a]) =
    (newest list.capacity.toNat (added ++ [a])).filter (list.baseline ≤ ·.epoch)
  rw [Arrival.newest_concat, hascending.filter_rtake, hinsert, Arrival.byEpoch_concat, h]
  rw [hinsert, Arrival.length_insertByEpoch, ← h, Arrival.length_byEpoch]
  exact hroom

/-- In a full list nothing is behind the window, and the first is cut off. -/
theorem displace (h : list.HoldsNewest added) (hahead : list.baseline ≤ a.epoch)
    (hfull : list.capacity.toNat ≤ list.arrivals.length) {front back : List (Arrival ν)}
    {oldest : Arrival ν} (hsplit : list.arrivals ++ [a] = front ++ oldest :: back)
    (hfront : ∀ b ∈ front, oldest.epoch < b.epoch) (hback : ∀ b ∈ back, oldest.epoch ≤ b.epoch) :
    HoldsNewest { list with arrivals := front ++ back } (added ++ [a]) := by
  have hall := h.filter_newest_of_full hfull
  have hsorted : oldest :: byEpoch (front ++ back) =
      a.insertByEpoch (newest list.capacity.toNat added) := by
    rw [← Arrival.byEpoch_oldest hfront hback, ← hsplit, Arrival.byEpoch_concat, h, hall]
  have hlength : (byEpoch (front ++ back)).length = list.capacity.toNat := by
    have hlengths := congrArg List.length hsorted
    rw [List.length_cons, Arrival.length_insertByEpoch, Nat.add_right_cancel_iff] at hlengths
    have hle := h.length_le
    have hbound := length_newest_le list added
    omega
  have hkept : (byEpoch (front ++ back)).filter (list.baseline ≤ ·.epoch) =
      byEpoch (front ++ back) := by
    have hinsert := filter_insertByEpoch_newest list added hahead
    rw [hall, ← hsorted, List.filter_eq_self] at hinsert
    exact List.filter_eq_self.mpr fun b hb => hinsert b (List.mem_cons_of_mem _ hb)
  have hcut : (oldest :: byEpoch (front ++ back)).rtake list.capacity.toNat =
      byEpoch (front ++ back) := by
    have happend := rtake_append_of_le [oldest] hlength.ge
    rwa [rtake_of_length_le hlength.le] at happend
  show byEpoch (front ++ back) =
    (newest list.capacity.toNat (added ++ [a])).filter (list.baseline ≤ ·.epoch)
  rw [Arrival.newest_concat, ← hsorted, hcut, hkept]

theorem add [BEq ν] (h : list.HoldsNewest added) {epoch : Epoch} {root : Root} {value : ν}
    (hahead : list.baseline ≤ epoch)
    (hnew : ∀ older ∈ added, ¬older.Same ⟨epoch, root, value⟩) :
    (list.add epoch root value).2.HoldsNewest (added ++ [⟨epoch, root, value⟩]) := by
  rcases list.add_cases epoch root value with ⟨hsame, -⟩ | ⟨-, hroom, hadd⟩ |
    ⟨-, hfull, front, oldest, back, hsplit, hfront, hback, hadd⟩
  · obtain ⟨older, holder, hepoch, hroot, hvalue⟩ := hsame
    exact absurd ⟨hepoch, hroot, hvalue⟩ (hnew older (h.mem_added holder))
  · rw [hadd]
    exact h.append hahead hroom
  · rw [hadd]
    exact h.displace hahead hfull hsplit hfront hback

end HoldsNewest

end ArrivalList

section

variable [BEq ν] {index : EpochIndex ν} {list : ArrivalList ν} {added : List (Arrival ν)}

/-- Whatever was added before, the newest are still held after more calls. -/
theorem Simulates.holdsNewest_run (h : Simulates index list) (hnewest : list.HoldsNewest added)
    {calls : List (IndexCall ν)} (hahead : index.StaysAhead calls)
    (hdistinct : (added ++ additions calls).Pairwise fun older newer => ¬older.Same newer) :
    (list.run calls).HoldsNewest (added ++ additions calls) := by
  -- What was added grows from call to call, and the baseline is read off the index.
  induction calls generalizing index list added with
  | nil =>
    rw [additions, List.filterMap_nil, List.append_nil]
    exact hnewest
  | cons call calls ih =>
    obtain ⟨hcall, hrest⟩ := hahead
    have hnext := (h.step call).2
    cases call with
    | add epoch root value =>
      have hadditions : added ++ additions (.add epoch root value :: calls) =
          added ++ [⟨epoch, root, value⟩] ++ additions calls :=
        List.append_cons ..
      rw [hadditions] at hdistinct ⊢
      have hnew : ∀ older ∈ added, ¬older.Same ⟨epoch, root, value⟩ := by
        have hbefore := (List.pairwise_append.mp hdistinct).1
        intro older holder
        exact (List.pairwise_append.mp hbefore).2.2 older holder _ (List.mem_singleton.mpr rfl)
      have hbehind : list.baseline ≤ epoch := by
        rw [h.baseline]
        exact hcall
      exact ih hnext (hnewest.add hbehind hnew) hrest hdistinct
    | evict root => exact hcall.elim
    | moveBaseline baseline => exact ih hnext (hnewest.moveBaseline baseline) hrest hdistinct

end

/-! ## Adding, cutting and pruning -/

namespace EpochIndex

open Arrival (byEpoch newest)

/-- Takes out the oldest values until no more than `count` are left. -/
def cutTo (index : EpochIndex ν) (count : Nat) : EpochIndex ν :=
  (fun index => index.evictOldest.2)^[index.size - count] index

/-- All that is stored, by epoch and within an epoch in the order of arrival. -/
def arrivals (index : EpochIndex ν) : List (Arrival ν) := index.stored.map (·.2)

theorem values_eq_map_arrivals (index : EpochIndex ν) :
    index.values = index.arrivals.map (·.value) := by
  rw [values_eq_map_stored, arrivals, List.map_map]
  rfl

variable {index : EpochIndex ν} {numbered : List (Nat × Arrival ν)}

namespace Represents

theorem arrivals_eq (h : index.Represents numbered) :
    index.arrivals = byEpoch (numbered.map (·.2)) := by
  rw [arrivals, h.stored_eq]
  exact List.map_mergeSort fun _ _ _ _ => rfl

theorem iterate_evictOldest (h : index.Represents numbered) {times : Nat}
    (hle : times ≤ numbered.length) :
    let cut := (fun index => index.evictOldest.2)^[times] index
    cut.baseline = index.baseline ∧ cut.arrivals = index.arrivals.drop times ∧
      ∃ numbered', cut.Represents numbered' := by
  induction times generalizing index numbered with
  | zero => exact ⟨rfl, rfl, numbered, h⟩
  | succ times ih =>
    obtain ⟨front, oldest, back, rfl, hfront, hback, -, hrest⟩ :=
      h.evictOldest (List.ne_nil_of_length_pos (Nat.lt_of_lt_of_le (Nat.succ_pos _) hle))
    obtain ⟨rows, places, size, hframe⟩ := index.evictOldest_frame
    have hfewer : times ≤ (front ++ back).length := by
      simp only [List.length_append, List.length_cons] at hle ⊢
      omega
    obtain ⟨hbaseline, harrivals, hrep⟩ := ih hrest hfewer
    refine ⟨hbaseline.trans (by rw [hframe]), harrivals.trans ?_, hrep⟩
    have holdest := Arrival.byEpoch_oldest (List.forall_mem_map.mpr hfront)
      (List.forall_mem_map.mpr hback)
    rw [hrest.arrivals_eq, h.arrivals_eq, List.map_append, List.map_append, List.map_cons,
      holdest, List.drop_succ_cons]

theorem cutTo (h : index.Represents numbered) (count : Nat) :
    (index.cutTo count).baseline = index.baseline ∧
      (index.cutTo count).arrivals = index.arrivals.rtake count ∧
      ∃ numbered', (index.cutTo count).Represents numbered' := by
  have hlength : index.arrivals.length = index.size := by
    rw [h.arrivals_eq, Arrival.length_byEpoch, List.length_map, h.size_eq]
  rw [List.rtake, hlength]
  exact h.iterate_evictOldest (h.size_eq ▸ Nat.sub_le ..)

theorem arrivals_moveBaseline (h : index.Represents numbered) (hstart : index.baseline = 0)
    (baseline : Epoch) : (index.moveBaseline baseline).2.arrivals =
      index.arrivals.filter (baseline ≤ ·.epoch) := by
  by_cases hbehind : baseline ≤ index.baseline
  · rw [moveBaseline_behind index hbehind]
    apply Eq.symm
    apply List.filter_eq_self.mpr
    intro a _
    rw [hstart] at hbehind
    exact decide_eq_true (UInt64.le_trans hbehind UInt64.zero_le)
  · rw [(h.moveBaseline hbehind).2.arrivals_eq, h.arrivals_eq, ← Arrival.byEpoch_filter,
      List.filter_map]
    rfl

end Represents

/-! ## Runs -/

theorem additions_filter_isAdd (calls : List (IndexCall ν)) :
    additions (calls.filter (·.isAdd)) = additions calls := by
  rw [additions, List.filterMap_filter, additions]
  apply congrArg (List.filterMap · calls)
  funext call
  cases call <;> rfl

variable [BEq ν]

theorem run_baseline (index : EpochIndex ν) (calls : List (IndexCall ν)) :
    (index.run calls).baseline = (calls.filterMap IndexCall.baseline?).foldl max index.baseline := by
  induction calls generalizing index with
  | nil => rfl
  | cons call calls ih =>
    refine (ih (index.step call).2).trans ?_
    cases call with
    | add epoch root value =>
      obtain ⟨_, _, _, _, hframe⟩ := index.add_frame epoch root value
      rw [step, Prod.map_snd, hframe]
      rfl
    | evict root =>
      obtain ⟨_, _, _, hframe⟩ := index.evict_frame root
      rw [step, Prod.map_snd, hframe]
      rfl
    | moveBaseline baseline =>
      obtain ⟨_, _, _, hframe⟩ := index.moveBaseline_frame baseline
      rw [step, Prod.map_snd, hframe]
      rfl

theorem arrivals_run_eq_newest (tracked : UInt64) (capacity : Capacity)
    {calls : List (IndexCall ν)} (hahead : (empty tracked capacity).StaysAhead calls)
    (hdistinct : (additions calls).Pairwise fun older newer => ¬older.Same newer) :
    let index := (empty tracked capacity).run calls
    index.arrivals =
      (newest capacity.toNat (additions calls)).filter (index.baseline ≤ ·.epoch) := by
  have hstart : Simulates (empty tracked capacity : EpochIndex ν) _ := .empty tracked capacity
  have hnewest := hstart.holdsNewest_run (.empty tracked capacity) hahead hdistinct
  obtain ⟨⟨numbered, hrep, harrivals⟩, hbaseline, -, -⟩ := hstart.run calls
  show arrivals _ = _
  rw [hrep.arrivals_eq, ← harrivals, ← hbaseline]
  rw [hnewest, ArrivalList.run_capacity]
  rfl

theorem staysAhead_of_adds {index : EpochIndex ν} (hstart : index.baseline = 0)
    {calls : List (IndexCall ν)} (hadds : ∀ call ∈ calls, call.isAdd = true) :
    index.StaysAhead calls ∧ (index.run calls).baseline = 0 := by
  induction calls generalizing index with
  | nil => exact ⟨trivial, hstart⟩
  | cons call calls ih =>
    obtain ⟨hcall, hrest⟩ := List.forall_mem_cons.mp hadds
    cases call with
    | add epoch root value =>
      obtain ⟨rows, places, nextNumber, size, hframe⟩ := index.add_frame epoch root value
      have hnext : (index.add epoch root value).2.baseline = 0 := by
        rw [hframe]
        exact hstart
      obtain ⟨hahead, hend⟩ := ih hnext hrest
      refine ⟨⟨?_, hahead⟩, hend⟩
      show index.baseline ≤ epoch
      rw [hstart]
      exact UInt64.zero_le
    | evict root => cases hcall
    | moveBaseline baseline => cases hcall

/-- Where there is room for all that is added, all of it is stored. -/
theorem arrivals_run_adds (tracked : UInt64) {unbounded : Capacity} {calls : List (IndexCall ν)}
    (hroom : (additions calls).length ≤ unbounded.toNat)
    (hdistinct : (additions calls).Pairwise fun older newer => ¬older.Same newer) :
    let all := (empty tracked unbounded).run (calls.filter (·.isAdd))
    all.baseline = 0 ∧ all.arrivals = byEpoch (additions calls) := by
  have hadds : ∀ call ∈ calls.filter (·.isAdd), call.isAdd = true := fun _ hcall =>
    (List.mem_filter.mp hcall).2
  have hempty : (empty tracked unbounded : EpochIndex ν).baseline = 0 := rfl
  obtain ⟨hahead, hstart⟩ := staysAhead_of_adds hempty hadds
  rw [← additions_filter_isAdd] at hdistinct hroom
  have harrivals := arrivals_run_eq_newest tracked unbounded hahead hdistinct
  rw [← Arrival.length_byEpoch] at hroom
  refine ⟨hstart, harrivals.trans ?_⟩
  rw [hstart, newest, rtake_of_length_le hroom, additions_filter_isAdd]
  exact List.filter_eq_self.mpr fun a _ => decide_eq_true UInt64.zero_le

/-- After additions and moves of the window, in any order, an index has of the newest additions that
there is room for those that are not behind the furthest move: the same as if there had been room
for all, they had been cut to the capacity once and the window had been moved at the end. -/
theorem run_values_eq_newest (tracked : UInt64) (capacity : Capacity)
    (calls : List (IndexCall ν)) (hahead : (empty tracked capacity).StaysAhead calls)
    (hdistinct : (additions calls).Pairwise fun older newer => ¬older.Same newer) :
    let index := (empty tracked capacity).run calls
    index.baseline = latestBaseline calls ∧
      index.values = ((newest capacity.toNat (additions calls)).filter
        (index.baseline ≤ ·.epoch)).map (·.value) ∧
      ∀ unbounded : Capacity, (additions calls).length ≤ unbounded.toNat →
        let all := (empty tracked unbounded).run (calls.filter (·.isAdd))
        index.values = ((all.cutTo capacity.toNat).moveBaseline index.baseline).2.values := by
  intro index
  have harrivals : index.arrivals = _ := arrivals_run_eq_newest tracked capacity hahead hdistinct
  refine ⟨run_baseline _ calls, by rw [values_eq_map_arrivals, harrivals], ?_⟩
  intro unbounded hroom all
  obtain ⟨hstart, hall⟩ := arrivals_run_adds tracked hroom hdistinct
  obtain ⟨⟨numbered, hrep, -⟩, -, -, -⟩ :=
    (Simulates.empty tracked unbounded).run (calls.filter (·.isAdd))
  obtain ⟨hbaseline, hcut, _, hrep'⟩ := hrep.cutTo capacity.toNat
  rw [values_eq_map_arrivals, values_eq_map_arrivals, harrivals,
    hrep'.arrivals_moveBaseline (hbaseline.trans hstart), hcut, hall]
  rfl

/-- The third addition displaces the first, the move drops the second, and so there is room again
for one that is older than what is stored. -/
theorem run_values_eq_newest_of_four :
    let calls : List (IndexCall Nat) :=
      [.add 3 .zero 0, .add 4 .zero 1, .add 7 .zero 2, .moveBaseline 5, .add 6 .zero 3]
    let all := (empty 8 .usual).run (calls.filter (·.isAdd))
    ((empty 8 ⟨2, by decide⟩).run calls).values = [3, 2] ∧
      ((all.cutTo 2).moveBaseline 5).2.values = [3, 2] := by
  intro calls all
  have hahead : (empty 8 ⟨2, by decide⟩).StaysAhead calls := by decide +kernel
  have hdistinct : (additions calls).Pairwise fun older newer => ¬older.Same newer := by
    decide +kernel
  have hvalues : ((empty 8 ⟨2, by decide⟩).run calls).values = [3, 2] := by decide +kernel
  obtain ⟨hbaseline, -, hcut⟩ := run_values_eq_newest 8 ⟨2, by decide⟩ calls hahead hdistinct
  have hlatest : latestBaseline calls = 5 := rfl
  have hsame := hcut .usual (by decide)
  rw [hbaseline, hlatest] at hsame
  exact ⟨hvalues, hsame.symm.trans hvalues⟩

end EpochIndex

end AttestationIntake
