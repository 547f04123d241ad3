import AttestationIntake.Proofs.Orphans.Contents

/-!
Orphans entry by entry. An entry is a receipt with the number under which it is stored, so a receipt
that comes again after it has left makes another entry. Whatever changes the orphans keeps some of
their entries, in the same order, and only a receipt that is filed can make a new one.
-/

namespace AttestationIntake

variable {p : Preset}

structure Entry (p : Preset) where
  number : Nat
  receipt : Received p
deriving DecidableEq

namespace Orphans

/-- All that is stored, in the order in which it was stored. -/
def entries (orphans : Orphans p) : List (Entry p) :=
  (orphans.index.rows.entries.map fun (number, _, receipt) => ⟨number, receipt⟩).mergeSort
    fun a b => a.number ≤ b.number

variable {orphans orphans' : Orphans p} {receipts receipts' : List (Received p)}
  {numbered : List (Nat × Arrival (Received p))}

/-! ## Reading -/

theorem entries_perm_values (orphans : Orphans p) :
    (orphans.entries.map (·.receipt)).Perm orphans.index.values := by
  rw [EpochIndex.values, entries]
  refine ((List.mergeSort_perm ..).map _).trans ?_
  rw [List.map_map]
  exact List.Perm.refl _

theorem entries_eq (h : orphans.index.Represents numbered) :
    orphans.entries = numbered.map fun a => ⟨a.1, a.2.value⟩ := by
  have hentries : (orphans.index.rows.entries.map fun (number, _, receipt) => ⟨number, receipt⟩) =
      orphans.index.stored.map fun a => (⟨a.1, a.2.value⟩ : Entry p) := by
    rw [Shelves.entries_eq_map_labelled, EpochIndex.stored, List.map_map, List.map_map]
    rfl
  have hperm : orphans.entries.Perm (numbered.map fun a => ⟨a.1, a.2.value⟩) := by
    rw [entries, hentries]
    exact (List.mergeSort_perm ..).trans (h.stored_perm.map _)
  have hsorted : orphans.entries.Pairwise fun a b => a.number ≤ b.number := by
    refine (List.pairwise_mergeSort ?_ ?_ _).imp of_decide_eq_true
    · intro a b c hab hbc
      exact decide_eq_true (Nat.le_trans (of_decide_eq_true hab) (of_decide_eq_true hbc))
    · intro a b
      simp only [Bool.or_eq_true, decide_eq_true_eq]
      exact Nat.le_total _ _
  refine hperm.eq_of_pairwise ?_ hsorted ?_
  · intro a b ha hb hab hba
    rw [hperm.mem_iff] at ha
    obtain ⟨x, hx, rfl⟩ := List.mem_map.mp ha
    obtain ⟨y, hy, rfl⟩ := List.mem_map.mp hb
    rw [h.eq_of_number hx hy (Nat.le_antisymm hab hba)]
  · rw [List.pairwise_map]
    exact h.ascending.imp Nat.le_of_lt

namespace Holds

theorem exists_numbered (h : orphans.Holds receipts) : ∃ numbered,
    orphans.index.Represents numbered ∧ receipts.map (·.arrival) = numbered.map (·.2) :=
  h.simulates.arrivals

theorem receipts_entries (h : orphans.Holds receipts) :
    orphans.entries.map (·.receipt) = receipts := by
  obtain ⟨numbered, hrep, harrivals⟩ := h.exists_numbered
  have hvalues := congrArg (List.map (·.value)) harrivals
  rw [List.map_map, List.map_map] at hvalues
  rw [entries_eq hrep, List.map_map]
  exact hvalues.symm.trans (List.map_id _)

theorem entries_ascending (h : orphans.Holds receipts) :
    orphans.entries.Pairwise fun a b => a.number < b.number := by
  obtain ⟨numbered, hrep, -⟩ := h.exists_numbered
  rw [entries_eq hrep, List.pairwise_map]
  exact hrep.ascending

theorem number_lt (h : orphans.Holds receipts) {e : Entry p} (he : e ∈ orphans.entries) :
    e.number < orphans.index.nextNumber := by
  obtain ⟨numbered, hrep, -⟩ := h.exists_numbered
  rw [entries_eq hrep] at he
  obtain ⟨a, ha, rfl⟩ := List.mem_map.mp he
  exact hrep.number_lt a ha

theorem nodup (h : orphans.Holds receipts) : receipts.Nodup := by
  have hdistinct := h.bounded.distinct
  rw [listing, List.pairwise_map] at hdistinct
  refine hdistinct.imp ?_
  rintro r r' hnot rfl
  exact hnot ⟨rfl, rfl, beq_self_eq_true r⟩

theorem contains_iff (h : orphans.Holds receipts) (r : Received p) :
    orphans.index.contains r.target r.root r = true ↔ r ∈ receipts := by
  obtain ⟨numbered, hrep, harrivals⟩ := h.exists_numbered
  have hiff : _ ↔ r ∈ receipts := orphans.exists_arrival_iff receipts r
  rw [hrep.contains_eq, ← harrivals, ← hiff]
  simp only [List.any_eq_true, Bool.and_eq_true, decide_eq_true_eq, and_assoc]
  rfl

/-- Of a list with distinct receipts, the entries afterwards are those whose receipts are held. -/
theorem entries_eq_filter (h : orphans.Holds receipts) {list : List (Entry p)}
    (hsubset : orphans.entries ⊆ list) (hascending : list.Pairwise fun a b => a.number < b.number)
    (hnodup : (list.map (·.receipt)).Nodup) :
    orphans.entries = list.filter (·.receipt ∈ receipts) := by
  have : Std.Asymm fun a b : Entry p => a.number < b.number := ⟨fun _ _ => Nat.lt_asymm⟩
  refine h.entries_ascending.eq_of_mem_iff (hascending.filter _) ?_
  intro e
  rw [List.mem_filter, decide_eq_true_eq, ← h.receipts_entries, List.mem_map]
  constructor
  · exact fun he => ⟨hsubset he, e, he, rfl⟩
  · rintro ⟨he, e', he', hsame⟩
    rwa [← List.inj_on_of_nodup_map hnodup (hsubset he') he hsame]

end Holds

/-! ## Changes -/

/-- Filing a receipt can make an entry, if the receipt is a new one. -/
theorem Holds.entries_file_subset (h : orphans.Holds receipts) (r : Received p) :
    (orphans.file r).2.entries ⊆
      if r ∈ receipts then orphans.entries
      else orphans.entries ++ [⟨orphans.index.nextNumber, r⟩] := by
  obtain ⟨numbered, hrep, -⟩ := h.exists_numbered
  obtain ⟨numbered', hrep', hsubset⟩ := hrep.exists_add r.target r.root r
  have hfile : (orphans.file r).2.entries = _ := entries_eq hrep'
  rw [hfile, entries_eq hrep]
  simp only [h.contains_iff] at hsubset
  split at hsubset
  · rename_i hold
    rw [if_pos hold]
    exact List.map_subset _ hsubset
  · rename_i hnew
    rw [if_neg hnew]
    refine List.Subset.trans (List.map_subset _ hsubset) ?_
    rw [List.map_append]
    exact List.Subset.refl _

theorem Holds.nextNumber_file (h : orphans.Holds receipts) (r : Received p) :
    (orphans.file r).2.index.nextNumber =
      if r ∈ receipts then orphans.index.nextNumber else orphans.index.nextNumber + 1 := by
  have hnumber := orphans.index.add_nextNumber r.target r.root r
  simp only [h.contains_iff] at hnumber
  exact hnumber

theorem Holds.entries_release_subset (h : orphans.Holds receipts) (rules : ChainRules p)
    (block : BeaconBlock p) : (orphans.release rules block).2.1.entries ⊆ orphans.entries := by
  cases htracks : orphans.tracks (p.epochAt block.slot) with
  | false =>
    rw [release_outside rules orphans htracks]
    exact List.Subset.refl _
  | true =>
    obtain ⟨numbered, hrep, -⟩ := h.exists_numbered
    have hrelease : (orphans.release rules block).2.1.index =
        (orphans.index.evict (rules.blockRoot block)).2 := by
      rw [Orphans.release, htracks]
      rfl
    have hrep' := (hrep.evict (rules.blockRoot block)).2
    rw [← hrelease] at hrep'
    rw [entries_eq hrep', entries_eq hrep]
    exact List.map_subset _ (List.filter_subset_self _)

theorem Holds.entries_tick_subset (h : orphans.Holds receipts) (slot : Slot) :
    (orphans.tick slot).1.entries ⊆ orphans.entries := by
  obtain ⟨numbered, hrep, -⟩ := h.exists_numbered
  by_cases hbehind : orphans.baselineAt slot ≤ orphans.index.baseline
  · rw [tick_eq, EpochIndex.moveBaseline, if_pos hbehind]
    exact List.Subset.refl _
  · have hrep' := (hrep.moveBaseline hbehind).2
    have htick : (orphans.tick slot).1.entries = _ := entries_eq hrep'
    rw [htick, entries_eq hrep]
    exact List.map_subset _ (List.filter_subset_self _)

end Orphans

end AttestationIntake
