import AttestationIntake.Proofs.Chain.Epoch
import AttestationIntake.Proofs.EpochIndex.Changes

/-!
An epoch index and a plain list of arrivals cannot be told apart: the same calls get the same
answers, and the same is read after each of them.
-/

namespace AttestationIntake

variable {ν : Type}

inductive IndexCall (ν : Type) where
  | add (epoch : Epoch) (root : Root) (value : ν)
  | evict (root : Root)
  | moveBaseline (baseline : Epoch)

def IndexCall.isAdd : IndexCall ν → Bool
  | .add .. => true
  | _ => false

/-- What a call returns. -/
inductive IndexAnswer (ν : Type) where
  | displaced (value : Option ν)
  | evicted (values : List ν)
  | dropped (count : Nat)

/-- All that can be read between two calls. -/
structure IndexReading (ν : Type) where
  values : List ν
  size : Nat
  isEmpty : Bool
  baseline : Epoch
  window : EpochWindow

namespace EpochIndex

def step [BEq ν] (index : EpochIndex ν) : IndexCall ν → IndexAnswer ν × EpochIndex ν
  | .add epoch root value => (index.add epoch root value).map .displaced id
  | .evict root => (index.evict root).map .evicted id
  | .moveBaseline baseline => (index.moveBaseline baseline).map .dropped id

def run [BEq ν] (index : EpochIndex ν) (calls : List (IndexCall ν)) : EpochIndex ν :=
  calls.foldl (fun index call => (index.step call).2) index

def reading (index : EpochIndex ν) : IndexReading ν :=
  ⟨index.values, index.size, index.isEmpty, index.baseline, index.window⟩

end EpochIndex

namespace ArrivalList

def step [BEq ν] (list : ArrivalList ν) : IndexCall ν → IndexAnswer ν × ArrivalList ν
  | .add epoch root value => (list.add epoch root value).map .displaced id
  | .evict root => (list.evict root).map .evicted id
  | .moveBaseline baseline => (list.moveBaseline baseline).map .dropped id

def run [BEq ν] (list : ArrivalList ν) (calls : List (IndexCall ν)) : ArrivalList ν :=
  calls.foldl (fun list call => (list.step call).2) list

def reading (list : ArrivalList ν) : IndexReading ν :=
  ⟨list.values, list.arrivals.length, list.arrivals.isEmpty, list.baseline, list.window⟩

end ArrivalList

/-- The answers to calls, each with what is read after it. -/
def transcript {σ : Type} (step : σ → IndexCall ν → IndexAnswer ν × σ)
    (reading : σ → IndexReading ν) : σ → List (IndexCall ν) → List (IndexAnswer ν × IndexReading ν)
  | _, [] => []
  | state, call :: calls =>
      ((step state call).1, reading (step state call).2) ::
        transcript step reading (step state call).2 calls

/-! ## The simulation -/

/-- A list holds the arrivals that an index stands for, and has its baseline and its bounds. -/
structure Simulates (index : EpochIndex ν) (list : ArrivalList ν) : Prop where
  arrivals : ∃ numbered, index.Represents numbered ∧ list.arrivals = numbered.map (·.2)
  baseline : list.baseline = index.baseline
  tracked : list.tracked = index.tracked
  capacity : list.capacity = index.capacity

namespace Simulates

open EpochIndex (evictOldest_frame)

variable {index : EpochIndex ν} {list : ArrivalList ν}

theorem empty (tracked : UInt64) (capacity : Capacity) :
    Simulates (EpochIndex.empty tracked capacity : EpochIndex ν) (.empty tracked capacity) where
  arrivals := ⟨[], EpochIndex.represents_empty tracked capacity, rfl⟩
  baseline := rfl
  tracked := rfl
  capacity := rfl

theorem reading_eq (h : Simulates index list) : index.reading = list.reading := by
  obtain ⟨⟨numbered, hrep, harrivals⟩, hbaseline, htracked, -⟩ := h
  have hvalues : index.values = list.values := by
    rw [hrep.values_eq, ArrivalList.values, harrivals]
  have hsize : index.size = list.arrivals.length := by
    rw [hrep.size_eq, harrivals, List.length_map]
  have hempty : index.isEmpty = list.arrivals.isEmpty := by
    rw [EpochIndex.isEmpty, hsize, Bool.eq_iff_iff, beq_iff_eq, List.length_eq_zero_iff,
      List.isEmpty_iff]
  have hwindow : index.window = list.window := by
    have hstop := toNat_addCapped index.baseline index.tracked
    rw [EpochIndex.window, ArrivalList.window, hbaseline, htracked, ← hstop, UInt64.ofNat_toNat]
  rw [EpochIndex.reading, ArrivalList.reading, hvalues, hsize, hempty, hbaseline, hwindow]

theorem add [BEq ν] (h : Simulates index list) (epoch : Epoch) (root : Root) (value : ν) :
    (index.add epoch root value).1 = (list.add epoch root value).1 ∧
      Simulates (index.add epoch root value).2 (list.add epoch root value).2 := by
  obtain ⟨⟨numbered, hrep, harrivals⟩, hbaseline, htracked, hcapacity⟩ := h
  unfold EpochIndex.add ArrivalList.add
  rw [hrep.contains_eq, ← harrivals]
  split
  -- What is stored already is found by both, and neither changes.
  · exact ⟨rfl, ⟨numbered, hrep, harrivals⟩, hbaseline, htracked, hcapacity⟩
  · have hgrown := hrep.grow epoch root value
    have harrivals' : list.arrivals ++ [⟨epoch, root, value⟩] =
        (numbered ++ [(index.nextNumber, (⟨epoch, root, value⟩ : Arrival ν))]).map (·.2) := by
      rw [List.map_append, harrivals]
      rfl
    have hsize : (index.grow epoch root value).size =
        (list.arrivals ++ [(⟨epoch, root, value⟩ : Arrival ν)]).length := by
      rw [hgrown.size_eq, harrivals', List.length_map]
    have hbound : (index.grow epoch root value).capacity = list.capacity := hcapacity.symm
    simp only [hsize, hbound]
    split
    -- Above the capacity, the first arrival of the lowest epoch leaves both.
    · obtain ⟨before, oldest, after, hsplit, hbefore, hafter, hvalue, hrest⟩ :=
        hgrown.evictOldest (by simp)
      obtain ⟨rows, places, size, hframe⟩ := evictOldest_frame (index.grow epoch root value)
      have hbefore' : ∀ a ∈ before.map (·.2), oldest.2.epoch < a.epoch :=
        List.forall_mem_map.mpr hbefore
      have hafter' : ∀ a ∈ after.map (·.2), oldest.2.epoch ≤ a.epoch :=
        List.forall_mem_map.mpr hafter
      obtain ⟨hfind, herase⟩ := ArrivalList.find?_eraseP_isLowest hbefore' hafter'
      rw [harrivals', hsplit, List.map_append, List.map_cons, hfind, herase, hvalue]
      refine ⟨rfl, ⟨_, hrest, (List.map_append ..).symm⟩, ?_, ?_, ?_⟩ <;> rw [hframe]
      · exact hbaseline
      · exact htracked
      · exact hcapacity
    · exact ⟨rfl, ⟨_, hgrown, harrivals'⟩, hbaseline, htracked, hcapacity⟩

theorem evict (h : Simulates index list) (root : Root) :
    (index.evict root).1 = (list.evict root).1 ∧
      Simulates (index.evict root).2 (list.evict root).2 := by
  obtain ⟨⟨numbered, hrep, harrivals⟩, hbaseline, htracked, hcapacity⟩ := h
  obtain ⟨hvalues, hrest⟩ := hrep.evict root
  obtain ⟨rows, places, size, hframe⟩ := index.evict_frame root
  refine ⟨by rw [hvalues, ArrivalList.evict, harrivals], ⟨_, hrest, ?_⟩, ?_, ?_, ?_⟩
  · exact (congrArg _ harrivals).trans (List.filter_map ..)
  · rw [hframe]
    exact hbaseline
  · rw [hframe]
    exact htracked
  · rw [hframe]
    exact hcapacity

theorem moveBaseline (h : Simulates index list) (baseline : Epoch) :
    (index.moveBaseline baseline).1 = (list.moveBaseline baseline).1 ∧
      Simulates (index.moveBaseline baseline).2 (list.moveBaseline baseline).2 := by
  by_cases hbehind : baseline ≤ index.baseline
  · have hbehind' : baseline ≤ list.baseline := by rwa [h.baseline]
    rw [EpochIndex.moveBaseline, if_pos hbehind, ArrivalList.moveBaseline, if_pos hbehind']
    exact ⟨rfl, h⟩
  · obtain ⟨⟨numbered, hrep, harrivals⟩, hbaseline, htracked, hcapacity⟩ := h
    obtain ⟨hcount, hrest⟩ := hrep.moveBaseline hbehind
    have hbehind' : ¬baseline ≤ list.baseline := by rwa [hbaseline]
    rw [ArrivalList.moveBaseline, if_neg hbehind']
    refine ⟨by rw [hcount, harrivals], ⟨_, hrest, ?_⟩, ?_, ?_, ?_⟩
    · exact (congrArg _ harrivals).trans (List.filter_map ..)
    all_goals rw [EpochIndex.moveBaseline, if_neg hbehind]
    · exact htracked
    · exact hcapacity

/-- A call gets the same answer from both, and they stay alike. -/
theorem step [BEq ν] (h : Simulates index list) (call : IndexCall ν) :
    (index.step call).1 = (list.step call).1 ∧
      Simulates (index.step call).2 (list.step call).2 := by
  cases call with
  | add epoch root value =>
    obtain ⟨hanswer, hrest⟩ := h.add epoch root value
    exact ⟨congrArg _ hanswer, hrest⟩
  | evict root =>
    obtain ⟨hanswer, hrest⟩ := h.evict root
    exact ⟨congrArg _ hanswer, hrest⟩
  | moveBaseline baseline =>
    obtain ⟨hanswer, hrest⟩ := h.moveBaseline baseline
    exact ⟨congrArg _ hanswer, hrest⟩

theorem run [BEq ν] (h : Simulates index list) (calls : List (IndexCall ν)) :
    Simulates (index.run calls) (list.run calls) := by
  induction calls generalizing index list with
  | nil => exact h
  | cons call calls ih => exact ih (h.step call).2

theorem transcript_eq [BEq ν] (h : Simulates index list) (calls : List (IndexCall ν)) :
    transcript EpochIndex.step EpochIndex.reading index calls =
      transcript ArrivalList.step ArrivalList.reading list calls := by
  -- For any two states that are alike, as each call starts from those the last one left.
  induction calls generalizing index list with
  | nil => rfl
  | cons call calls ih =>
    obtain ⟨hanswer, hrest⟩ := h.step call
    rw [transcript, transcript, hanswer, hrest.reading_eq, ih hrest]

end Simulates

/-- From the start on, an index answers every sequence of calls as the list of arrivals does, and
the same is read of both before the first call and after each. -/
theorem EpochIndex.transcript_eq_arrivalList {ν : Type} [BEq ν] (tracked : UInt64)
    (capacity : Capacity) (calls : List (IndexCall ν)) :
    (EpochIndex.empty tracked capacity : EpochIndex ν).reading =
        (ArrivalList.empty tracked capacity).reading ∧
      transcript EpochIndex.step EpochIndex.reading (.empty tracked capacity) calls =
        transcript ArrivalList.step ArrivalList.reading (.empty tracked capacity) calls :=
  ⟨(Simulates.empty tracked capacity).reading_eq,
    (Simulates.empty tracked capacity).transcript_eq calls⟩

end AttestationIntake
