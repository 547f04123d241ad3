import AttestationIntake.EpochIndex.Basic
import Mathlib.Logic.Function.Basic

/-!
An epoch index without its maps: one list of all that was added and has not left, in the order of
arrival. It is what an index is to those who use it, and much too slow to be one.
-/

namespace AttestationIntake

/-- A value with the epoch and the root under which it was added. -/
structure Arrival (ν : Type) where
  epoch : Epoch
  root : Root
  value : ν

def Arrival.mapValue {ν μ : Type} (f : ν → μ) (a : Arrival ν) : Arrival μ :=
  { a with value := f a.value }

structure ArrivalList (ν : Type) where
  arrivals : List (Arrival ν) := []
  baseline : Epoch := 0
  tracked : UInt64
  capacity : Capacity

namespace ArrivalList

variable {ν : Type}

def empty (tracked : UInt64) (capacity : Capacity) : ArrivalList ν := { tracked, capacity }

/-- All values, by epoch and within an epoch by arrival: the sort is stable. -/
def values (list : ArrivalList ν) : List ν :=
  (list.arrivals.mergeSort fun a b => a.epoch ≤ b.epoch).map (·.value)

/-- From the baseline on as many epochs as are tracked, as far as there are words for them. -/
def window (list : ArrivalList ν) : EpochWindow :=
  ⟨list.baseline, .ofNat (min (list.baseline.toNat + list.tracked.toNat) (UInt64.size - 1))⟩

/-! ## Changing -/

/-- Whether no arrival has a lower epoch. -/
def isLowest (arrivals : List (Arrival ν)) (a : Arrival ν) : Bool :=
  arrivals.all (a.epoch ≤ ·.epoch)

def add [BEq ν] (list : ArrivalList ν) (epoch : Epoch) (root : Root) (value : ν) :
    Option ν × ArrivalList ν :=
  if list.arrivals.any fun a => a.epoch = epoch && a.root = root && a.value == value then
    (none, list)
  else
    let grown := list.arrivals ++ [⟨epoch, root, value⟩]
    if grown.length > list.capacity.toNat then
      ((grown.find? (isLowest grown)).map (·.value),
        { list with arrivals := grown.eraseP (isLowest grown) })
    else (none, { list with arrivals := grown })

def evict (list : ArrivalList ν) (root : Root) : List ν × ArrivalList ν :=
  ((list.arrivals.filter (·.root = root)).map (·.value),
    { list with arrivals := list.arrivals.filter (·.root ≠ root) })

def moveBaseline (list : ArrivalList ν) (baseline : Epoch) : Nat × ArrivalList ν :=
  if baseline ≤ list.baseline then (0, list)
  else
    ((list.arrivals.filter (·.epoch < baseline)).length,
      { list with arrivals := list.arrivals.filter (baseline ≤ ·.epoch), baseline })

/-- Some arrival is the first of the lowest epoch. -/
theorem exists_split_oldest {arrivals : List (Arrival ν)} (hne : arrivals ≠ []) :
    ∃ before oldest after, arrivals = before ++ oldest :: after ∧
      (∀ a ∈ before, oldest.epoch < a.epoch) ∧ ∀ a ∈ after, oldest.epoch ≤ a.epoch := by
  induction arrivals with
  | nil => exact absurd rfl hne
  | cons first rest ih =>
    by_cases hrest : rest = []
    · exact ⟨[], first, rest, rfl, by simp, by simp [hrest]⟩
    · obtain ⟨before, oldest, after, rfl, hbefore, hafter⟩ := ih hrest
      by_cases hle : first.epoch ≤ oldest.epoch
      · refine ⟨[], first, before ++ oldest :: after, rfl, by simp, ?_⟩
        intro a ha
        rcases List.mem_append.mp ha with ha | ha
        · exact UInt64.le_trans hle (UInt64.le_of_lt (hbefore a ha))
        · rcases List.mem_cons.mp ha with rfl | ha
          · exact hle
          · exact UInt64.le_trans hle (hafter a ha)
      · refine ⟨first :: before, oldest, after, rfl, ?_, hafter⟩
        exact List.forall_mem_cons.mpr ⟨UInt64.not_le.mp hle, hbefore⟩

/-- The first of the lowest arrivals is the one that `add` removes. -/
theorem find?_eraseP_isLowest {before after : List (Arrival ν)} {oldest : Arrival ν}
    (hbefore : ∀ a ∈ before, oldest.epoch < a.epoch)
    (hafter : ∀ a ∈ after, oldest.epoch ≤ a.epoch) :
    (before ++ oldest :: after).find? (isLowest (before ++ oldest :: after)) = some oldest ∧
      (before ++ oldest :: after).eraseP (isLowest (before ++ oldest :: after)) =
        before ++ after := by
  have hlowest : isLowest (before ++ oldest :: after) oldest = true := by
    simp only [isLowest, List.all_append, List.all_cons, Bool.and_eq_true, List.all_eq_true,
      decide_eq_true_eq]
    exact ⟨fun a ha => UInt64.le_of_lt (hbefore a ha), UInt64.le_refl _, hafter⟩
  have hhigher : ∀ a ∈ before, ¬isLowest (before ++ oldest :: after) a = true := by
    intro a ha hall
    have hle := List.all_eq_true.mp hall oldest List.mem_append_cons_self
    exact UInt64.not_lt.mpr (of_decide_eq_true hle) (hbefore a ha)
  constructor
  · rw [List.find?_eq_some_iff_append]
    exact ⟨hlowest, before, after, rfl, by simpa using hhigher⟩
  · rw [List.eraseP_append_right _ hhigher, List.eraseP_cons_of_pos hlowest]

/-- All that an addition can do. -/
theorem add_cases [BEq ν] (list : ArrivalList ν) (epoch : Epoch) (root : Root) (value : ν) :
    ((∃ a ∈ list.arrivals, a.epoch = epoch ∧ a.root = root ∧ (a.value == value) = true) ∧
        list.add epoch root value = (none, list)) ∨
      ((¬∃ a ∈ list.arrivals, a.epoch = epoch ∧ a.root = root ∧ (a.value == value) = true) ∧
        list.arrivals.length < list.capacity.toNat ∧ list.add epoch root value =
          (none, { list with arrivals := list.arrivals ++ [⟨epoch, root, value⟩] })) ∨
      ((¬∃ a ∈ list.arrivals, a.epoch = epoch ∧ a.root = root ∧ (a.value == value) = true) ∧
        list.capacity.toNat ≤ list.arrivals.length ∧ ∃ before oldest after,
          list.arrivals ++ [⟨epoch, root, value⟩] = before ++ oldest :: after ∧
          (∀ b ∈ before, oldest.epoch < b.epoch) ∧ (∀ a ∈ after, oldest.epoch ≤ a.epoch) ∧
          list.add epoch root value =
            (some oldest.value, { list with arrivals := before ++ after })) := by
  have hstored : (list.arrivals.any fun a => a.epoch = epoch && a.root = root && a.value == value) =
      true ↔ ∃ a ∈ list.arrivals, a.epoch = epoch ∧ a.root = root ∧ (a.value == value) = true := by
    simp only [List.any_eq_true, Bool.and_eq_true, decide_eq_true_eq, and_assoc]
  by_cases hold : ∃ a ∈ list.arrivals, a.epoch = epoch ∧ a.root = root ∧ (a.value == value) = true
  · exact .inl ⟨hold, by rw [add, if_pos (hstored.mpr hold)]⟩
  · right
    have hlength : (list.arrivals ++ [(⟨epoch, root, value⟩ : Arrival ν)]).length =
        list.arrivals.length + 1 := by rw [List.length_append, List.length_singleton]
    by_cases hroom : list.arrivals.length < list.capacity.toNat
    · refine .inl ⟨hold, hroom, ?_⟩
      rw [add, if_neg (mt hstored.mp hold)]
      exact if_neg (by rw [hlength]; omega)
    · have hfull := Nat.le_of_not_lt hroom
      obtain ⟨before, oldest, after, hsplit, hbefore, hafter⟩ :=
        exists_split_oldest (List.concat_ne_nil (⟨epoch, root, value⟩ : Arrival ν) list.arrivals)
      obtain ⟨hfind, herase⟩ := find?_eraseP_isLowest hbefore hafter
      refine .inr ⟨hold, hfull, before, oldest, after, hsplit, hbefore, hafter, ?_⟩
      rw [add, if_neg (mt hstored.mp hold)]
      refine (if_pos (by rw [hlength]; omega)).trans ?_
      rw [hsplit, hfind, herase]
      rfl

theorem arrivals_add_subset [BEq ν] (list : ArrivalList ν) (epoch : Epoch) (root : Root)
    (value : ν) :
    (list.add epoch root value).2.arrivals ⊆ list.arrivals ++ [⟨epoch, root, value⟩] := by
  rcases list.add_cases epoch root value with ⟨-, hadd⟩ | ⟨-, -, hadd⟩ |
    ⟨-, -, before, oldest, after, hsplit, -, -, hadd⟩ <;> rw [hadd]
  · exact List.subset_append_left _ _
  · exact List.Subset.refl _
  · rw [hsplit]
    exact ((List.sublist_cons_self oldest after).append_left before).subset

/-! ## Other values -/

section

variable {μ : Type}

def mapValues (f : ν → μ) (list : ArrivalList ν) : ArrivalList μ :=
  { list with arrivals := list.arrivals.map (·.mapValue f) }

theorem isLowest_map_mapValue (f : ν → μ) (arrivals : List (Arrival ν)) (a : Arrival ν) :
    isLowest (arrivals.map (·.mapValue f)) (a.mapValue f) = isLowest arrivals a := by
  rw [isLowest, List.all_map]
  rfl

/-- What an addition does depends on values only by which of them are equal. -/
theorem add_mapValues [BEq ν] [LawfulBEq ν] [BEq μ] [LawfulBEq μ] {f : ν → μ}
    (hf : Function.Injective f) (list : ArrivalList ν) (epoch : Epoch) (root : Root) (value : ν) :
    (list.mapValues f).add epoch root (f value) =
      ((list.add epoch root value).1.map f, (list.add epoch root value).2.mapValues f) := by
  have hequal : ∀ v, (f v == f value) = (v == value) := by
    intro v
    rw [Bool.eq_iff_iff, beq_iff_eq, beq_iff_eq, hf.eq_iff]
  have hstored : ((list.mapValues f).arrivals.any fun a =>
        a.epoch = epoch && a.root = root && a.value == f value) =
      list.arrivals.any fun a => a.epoch = epoch && a.root = root && a.value == value := by
    simp only [mapValues, Arrival.mapValue, List.any_map, Function.comp_def, hequal]
  have hgrown : (list.mapValues f).arrivals ++ [⟨epoch, root, f value⟩] =
      (list.arrivals ++ [(⟨epoch, root, value⟩ : Arrival ν)]).map (·.mapValue f) := by
    rw [List.map_append]
    rfl
  rw [add, add, hstored, hgrown]
  generalize list.arrivals ++ [(⟨epoch, root, value⟩ : Arrival ν)] = grown
  split
  · rfl
  · dsimp only [mapValues]
    rw [List.length_map]
    by_cases hfull : grown.length > list.capacity.toNat
    · rw [if_pos hfull]
      refine (if_pos hfull).trans ?_
      rw [List.find?_map, List.eraseP_map]
      simp only [Function.comp_def, isLowest_map_mapValue, Option.map_map]
      rfl
    · rw [if_neg hfull]
      exact if_neg hfull

end

end ArrivalList

/-! ## Sorting by epoch -/

section

variable {α : Type} (epoch : α → Epoch)

theorem epoch_le_trans (a b c : α) (hab : decide (epoch a ≤ epoch b) = true)
    (hbc : decide (epoch b ≤ epoch c) = true) : decide (epoch a ≤ epoch c) = true := by
  rw [decide_eq_true_eq] at *
  exact UInt64.le_trans hab hbc

theorem epoch_le_total (a b : α) :
    (decide (epoch a ≤ epoch b) || decide (epoch b ≤ epoch a)) = true := by
  rw [Bool.or_eq_true, decide_eq_true_eq, decide_eq_true_eq]
  exact UInt64.le_total _ _

/-- Sorting by epoch keeps what has one epoch in its order. -/
theorem filter_sortByEpoch (l : List α) (e : Epoch) :
    (l.mergeSort fun a b => epoch a ≤ epoch b).filter (epoch · = e) = l.filter (epoch · = e) := by
  have hsub : (l.filter (epoch · = e)).Sublist (l.mergeSort fun a b => epoch a ≤ epoch b) := by
    apply List.sublist_mergeSort (epoch_le_trans epoch) (epoch_le_total epoch)
    · apply List.pairwise_of_forall_mem_list
      intro a ha b hb
      have hea := of_decide_eq_true (List.mem_filter.mp ha).2
      have heb := of_decide_eq_true (List.mem_filter.mp hb).2
      simp [hea, heb]
    · exact List.filter_sublist
  have hfilter := hsub.filter (epoch · = e)
  rw [List.filter_filter] at hfilter
  simp only [Bool.and_self] at hfilter
  exact (hfilter.eq_of_length ((List.mergeSort_perm l _).filter _).length_eq.symm).symm

/-- What ascends by `r` ascends by epoch and then by `r` once it is sorted by epoch. -/
theorem sortByEpoch_ascending {r : α → α → Prop} {l : List α} (h : l.Pairwise r) :
    (l.mergeSort fun a b => epoch a ≤ epoch b).Pairwise fun a b =>
      epoch a < epoch b ∨ (epoch a = epoch b ∧ r a b) := by
  rw [List.pairwise_iff_forall_sublist]
  intro a b hab
  have hsorted := List.pairwise_mergeSort (epoch_le_trans epoch) (epoch_le_total epoch) l
  have hle := of_decide_eq_true (List.pairwise_iff_forall_sublist.mp hsorted hab)
  by_cases heq : epoch a = epoch b
  · have hfilter := hab.filter (epoch · = epoch b)
    rw [filter_sortByEpoch] at hfilter
    simp only [heq, decide_true, List.filter_cons_of_pos, List.filter_nil] at hfilter
    exact .inr ⟨heq, List.pairwise_iff_forall_sublist.mp h (hfilter.trans List.filter_sublist)⟩
  · exact .inl (UInt64.lt_of_le_of_ne hle heq)

theorem sortByEpoch_pairwise (l : List α) :
    (l.mergeSort fun a b => epoch a ≤ epoch b).Pairwise fun a b => epoch a ≤ epoch b :=
  (List.pairwise_mergeSort (epoch_le_trans epoch) (epoch_le_total epoch) l).imp of_decide_eq_true

theorem mem_of_filter_epoch {l l' : List α}
    (hfilter : ∀ e, l.filter (epoch · = e) = l'.filter (epoch · = e)) {a : α} (ha : a ∈ l) :
    a ∈ l' := by
  have hown : a ∈ l.filter (epoch · = epoch a) := List.mem_filter.mpr ⟨ha, decide_eq_true rfl⟩
  rw [hfilter] at hown
  exact (List.mem_filter.mp hown).1

/-- What ascends by epoch is determined by what it has for each epoch. -/
theorem eq_of_filter_epoch {l l' : List α} (h : l.Pairwise fun a b => epoch a ≤ epoch b)
    (h' : l'.Pairwise fun a b => epoch a ≤ epoch b)
    (hfilter : ∀ e, l.filter (epoch · = e) = l'.filter (epoch · = e)) : l = l' := by
  induction l generalizing l' with
  | nil =>
    apply Eq.symm
    apply List.eq_nil_iff_forall_not_mem.mpr
    intro a ha
    cases mem_of_filter_epoch epoch (fun e => (hfilter e).symm) ha
  | cons a l ih =>
    cases l' with
    | nil => cases mem_of_filter_epoch epoch hfilter (List.mem_cons_self (a := a))
    | cons b l' =>
      -- Both start with the lowest epoch, and for it they have the same.
      have hle : epoch a ≤ epoch b := by
        have hb := mem_of_filter_epoch epoch (fun e => (hfilter e).symm) List.mem_cons_self
        rcases List.mem_cons.mp hb with heq | hb
        · exact UInt64.le_of_eq (congrArg epoch heq.symm)
        · exact (List.pairwise_cons.mp h).1 b hb
      have hge : epoch b ≤ epoch a := by
        have ha := mem_of_filter_epoch epoch hfilter List.mem_cons_self
        rcases List.mem_cons.mp ha with heq | ha
        · exact UInt64.le_of_eq (congrArg epoch heq.symm)
        · exact (List.pairwise_cons.mp h').1 a ha
      have hfirst := hfilter (epoch b)
      simp only [List.filter_cons, UInt64.le_antisymm hle hge, decide_true, if_true] at hfirst
      have hsame : a = b := (List.cons.inj hfirst).1
      subst hsame
      refine congrArg (a :: ·) (ih h.of_cons h'.of_cons ?_)
      intro e
      have hall := hfilter e
      rw [List.filter_cons, List.filter_cons] at hall
      split at hall
      · exact (List.cons.inj hall).2
      · exact hall

/-- It does not matter whether something is dropped before or after sorting. -/
theorem sortByEpoch_filter (l : List α) (keep : α → Bool) :
    ((l.filter keep).mergeSort fun a b => epoch a ≤ epoch b) =
      (l.mergeSort fun a b => epoch a ≤ epoch b).filter keep := by
  apply eq_of_filter_epoch epoch (sortByEpoch_pairwise epoch _)
  · exact (sortByEpoch_pairwise epoch l).filter keep
  · intro e
    have hcomm : ∀ l : List α, (l.filter keep).filter (epoch · = e) =
        (l.filter (epoch · = e)).filter keep := by
      intro l
      rw [List.filter_filter, List.filter_filter]
      simp only [Bool.and_comm]
    rw [filter_sortByEpoch, hcomm, hcomm, filter_sortByEpoch]

end

end AttestationIntake
