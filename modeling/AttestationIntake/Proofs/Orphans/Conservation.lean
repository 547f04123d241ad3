import AttestationIntake.Proofs.Orphans.Entries
import AttestationIntake.Proofs.Orphans.Window

/-!
No orphan is lost, and none leaves twice. An entry that was made is still stored or has left, and
there are three ways to leave: it was released for its block, displaced for want of room, or dropped
behind the window. Additions and imports answer with just the receipts of what leaves by them.
-/

namespace AttestationIntake

variable {σ : Type} {p : Preset}

/-- The entries that come in and that leave. -/
structure Flow (p : Preset) where
  stored : List (Entry p) := []
  released : List (Entry p) := []
  displaced : List (Entry p) := []
  dropped : List (Entry p) := []

namespace Flow

def append (first rest : Flow p) : Flow p where
  stored := first.stored ++ rest.stored
  released := first.released ++ rest.released
  displaced := first.displaced ++ rest.displaced
  dropped := first.dropped ++ rest.dropped

/-- What was there and what came in is what is there and what has left. -/
def Balances (flow : Flow p) (before after : List (Entry p)) : Prop :=
  (before ++ flow.stored).Perm (after ++ flow.released ++ flow.displaced ++ flow.dropped)

theorem Balances.append {flow flow' : Flow p} {before middle after : List (Entry p)}
    (h : flow.Balances before middle) (h' : flow'.Balances middle after) :
    (flow.append flow').Balances before after := by
  rw [Balances, List.perm_iff_count] at h h' ⊢
  intro e
  have hfirst := h e
  have hrest := h' e
  simp only [Flow.append, List.count_append] at hfirst hrest ⊢
  omega

end Flow

namespace Orphans

/-- The entry that a receipt makes when it is kept. One that is stored already makes none. -/
def newEntries (orphans : Orphans p) (received : Received p) : List (Entry p) :=
  if received ∈ orphans.index.values then [] else [⟨orphans.index.nextNumber, received⟩]

variable [BlockStore σ]

/-- The entries that come in and that leave with an event, by what it answers. A tick answers
nothing; what targets an epoch before the new start of the window is dropped. -/
def flow (rules : ChainRules p) (orphans : Orphans p) : OrphanEvent σ p → Flow p
  | .add store received =>
      match (orphans.add store received).1 with
      | .ok (.kept evicted) =>
          let stored := orphans.newEntries received
          { stored, displaced := (orphans.entries ++ stored).filter (·.receipt ∈ evicted.toList) }
      | _ => {}
  | .release block =>
      { released := orphans.entries.filter (·.receipt ∈ (orphans.release rules block).1) }
  | .tick slot =>
      let start := (orphans.tick slot).1.index.baseline
      { dropped := orphans.entries.filter (·.receipt.target < start) }

def totalFlow (rules : ChainRules p) : Orphans p → List (OrphanEvent σ p) → Flow p
  | _, [] => {}
  | orphans, event :: rest =>
      (orphans.flow rules event).append (totalFlow rules (orphans.step rules event) rest)

variable {orphans orphans' : Orphans p} {receipts receipts' : List (Received p)}

/-! ## What is kept and what leaves -/

/-- If the receipts of a list are those that are held afterwards and some others, then the list is
what is stored afterwards and the entries of these others. -/
theorem Holds.perm_entries (h : orphans.Holds receipts) {list : List (Entry p)}
    {gone : List (Received p)} (hsubset : orphans.entries ⊆ list)
    (hascending : list.Pairwise fun a b => a.number < b.number)
    (hnodup : (list.map (·.receipt)).Nodup)
    (hperm : (list.map (·.receipt)).Perm (receipts ++ gone)) :
    list.Perm (orphans.entries ++ list.filter (·.receipt ∈ gone)) := by
  have hother : ∀ e ∈ list, decide (e.receipt ∈ gone) = !decide (e.receipt ∈ receipts) := by
    intro e he
    have hmem := hperm.mem_iff.mp (List.mem_map_of_mem he)
    have hdisjoint := (List.nodup_append.mp (hperm.nodup_iff.mp hnodup)).2.2
    by_cases hheld : e.receipt ∈ receipts
    · have hstays : e.receipt ∉ gone := fun hgone => hdisjoint _ hheld _ hgone rfl
      simp [hheld, hstays]
    · simp [hheld, (List.mem_append.mp hmem).resolve_left hheld]
  rw [h.entries_eq_filter hsubset hascending hnodup, List.filter_congr hother]
  exact (List.filter_append_perm _ list).symm

theorem receipts_filter (list : List (Entry p)) (gone : List (Received p)) :
    (list.filter (·.receipt ∈ gone)).map (·.receipt) =
      (list.map (·.receipt)).filter (· ∈ gone) := by
  rw [List.filter_map]
  rfl

/-- And the receipts of these are just the others. -/
theorem receipts_filter_perm {list : List (Entry p)} {gone : List (Received p)}
    (hnodup : (list.map (·.receipt)).Nodup)
    (hperm : (list.map (·.receipt)).Perm (receipts ++ gone)) :
    ((list.filter (·.receipt ∈ gone)).map (·.receipt)).Perm gone := by
  have hgone := (List.nodup_append.mp (hperm.nodup_iff.mp hnodup)).2.1
  rw [receipts_filter, List.perm_ext_iff_of_nodup (hnodup.filter _) hgone]
  intro r
  rw [List.mem_filter, hperm.mem_iff, List.mem_append, decide_eq_true_eq]
  exact and_iff_right_of_imp .inr

section

variable {r : Received p}

theorem Holds.newEntries_eq (h : orphans.Holds receipts) (r : Received p) :
    orphans.newEntries r = if r ∈ receipts then [] else [⟨orphans.index.nextNumber, r⟩] := by
  simp only [newEntries, h.mem_values]

theorem Holds.ascending_append_newEntries (h : orphans.Holds receipts) (r : Received p) :
    (orphans.entries ++ orphans.newEntries r).Pairwise fun a b => a.number < b.number := by
  rw [h.newEntries_eq]
  split
  · rw [List.append_nil]
    exact h.entries_ascending
  · rw [List.pairwise_append]
    refine ⟨h.entries_ascending, List.pairwise_singleton .., ?_⟩
    intro e he new hnew
    rw [List.mem_singleton.mp hnew]
    exact h.number_lt he

theorem Holds.receipts_append_newEntries (h : orphans.Holds receipts) (r : Received p) :
    (orphans.entries ++ orphans.newEntries r).map (·.receipt) =
      receipts ++ if r ∈ receipts then [] else [r] := by
  rw [List.map_append, h.receipts_entries, h.newEntries_eq]
  split <;> rfl

theorem Holds.nodup_append_newEntries (h : orphans.Holds receipts) (r : Received p) :
    ((orphans.entries ++ orphans.newEntries r).map (·.receipt)).Nodup := by
  rw [h.receipts_append_newEntries]
  split
  · rw [List.append_nil]
    exact h.nodup
  · rename_i hnew
    rw [← List.concat_eq_append]
    exact h.nodup.concat hnew

/-- Filing keeps all receipts, with a new one, but for the one that it answers. -/
theorem Holds.file_perm (h : orphans.Holds receipts) (htracks : orphans.tracks r.target = true) :
    ∃ receipts', (orphans.file r).2.Holds receipts' ∧
      (receipts ++ if r ∈ receipts then [] else [r]).Perm
        (receipts' ++ (orphans.file r).1.toList) := by
  rcases h.file htracks with ⟨hold, hanswer, hfile⟩ | ⟨hnew, -, hanswer, hfile⟩ |
    ⟨hnew, -, -, hanswer, hfile⟩ |
    ⟨hnew, -, before, oldest, after, rfl, -, -, -, hanswer, hfile⟩ <;>
    refine ⟨_, hfile, ?_⟩ <;> rw [hanswer]
  · rw [if_pos hold]
    exact List.Perm.refl _
  · rw [if_neg hnew, Option.toList_none, List.append_nil]
  · rw [if_neg hnew]
    exact List.Perm.refl _
  · rw [if_neg hnew, List.perm_iff_count]
    intro other
    simp only [List.count_append, List.count_cons, List.count_nil, Option.toList_some]
    omega

theorem Holds.release_perm (h : orphans.Holds receipts) (rules : ChainRules p)
    (block : BeaconBlock p) : ∃ receipts', (orphans.release rules block).2.1.Holds receipts' ∧
      receipts.Perm (receipts' ++ (orphans.release rules block).1) := by
  cases htracks : orphans.tracks (p.epochAt block.slot) with
  | false =>
    rw [release_outside rules orphans htracks]
    exact ⟨receipts, h, by rw [List.append_nil]⟩
  | true =>
    obtain ⟨hreleased, hrest⟩ := h.release rules htracks
    refine ⟨_, hrest, ?_⟩
    rw [hreleased]
    simpa using (List.filter_append_perm (·.root ≠ rules.blockRoot block) receipts).symm

theorem Holds.tick_perm (h : orphans.Holds receipts) (slot : Slot) : ∃ receipts',
    (orphans.tick slot).1.Holds receipts' ∧
      receipts.Perm (receipts' ++ receipts.filter (·.target < orphans.baselineAt slot)) := by
  refine ⟨_, h.tick slot, ?_⟩
  simpa [← decide_not] using
    (List.filter_append_perm (orphans.baselineAt slot ≤ ·.target) receipts).symm

end

/-! ## Steps -/

/-- An addition files a receipt and answers what leaves for it, or nothing happens. -/
theorem flow_add_cases (rules : ChainRules p) (orphans : Orphans p) (store : σ) (r : Received p) :
    (orphans.step rules (.add store r) = orphans ∧ orphans.flow rules (.add store r) = {} ∧
        ∀ evicted, (orphans.add store r).1 ≠ .ok (.kept evicted)) ∨
      (orphans.tracks r.target = true ∧ orphans.step rules (.add store r) = (orphans.file r).2 ∧
        (orphans.add store r).1 = .ok (.kept (orphans.file r).1) ∧
        orphans.flow rules (.add store r) =
          { stored := orphans.newEntries r
            displaced := (orphans.entries ++ orphans.newEntries r).filter
              (·.receipt ∈ (orphans.file r).1.toList) }) := by
  rw [flow, step]
  rcases orphans.add_cases store r with ⟨-, hadd⟩ | ⟨-, -, hadd⟩ | ⟨-, -, -, hadd⟩ |
    ⟨-, htracks, hadd⟩ <;> rw [hadd]
  · exact .inl ⟨rfl, rfl, by simp⟩
  · exact .inl ⟨rfl, rfl, by simp⟩
  · exact .inl ⟨rfl, rfl, by simp⟩
  · exact .inr ⟨htracks, rfl, rfl, rfl⟩

theorem Holds.released_eq (h : orphans.Holds receipts) (rules : ChainRules p)
    (block : BeaconBlock p) :
    (orphans.flow rules (.release block : OrphanEvent σ p)).released =
      orphans.entries.filter fun e =>
        orphans.tracks (p.epochAt block.slot) ∧ e.receipt.root = rules.blockRoot block := by
  refine List.filter_congr ?_
  intro e he
  have hmem : e.receipt ∈ receipts := by
    rw [← h.receipts_entries]
    exact List.mem_map_of_mem he
  cases htracks : orphans.tracks (p.epochAt block.slot) with
  | false => simp [release_outside rules orphans htracks]
  | true => simp [(h.release rules htracks).1, hmem]

theorem Holds.dropped_eq (h : orphans.Holds receipts) (slot : Slot) :
    orphans.entries.filter (·.receipt.target < (orphans.tick slot).1.index.baseline) =
      orphans.entries.filter
        (·.receipt ∈ receipts.filter (·.target < orphans.baselineAt slot)) := by
  obtain ⟨rows, places, size, hframe⟩ := h.tick_frame slot
  refine List.filter_congr ?_
  intro e he
  have hmem : e.receipt ∈ receipts := by
    rw [← h.receipts_entries]
    exact List.mem_map_of_mem he
  rw [hframe]
  simp [hmem]

theorem Holds.flow_balances (h : orphans.Holds receipts) (rules : ChainRules p)
    (event : OrphanEvent σ p) :
    (orphans.flow rules event).Balances orphans.entries (orphans.step rules event).entries := by
  have hnodup : (orphans.entries.map (·.receipt)).Nodup := h.receipts_entries.symm ▸ h.nodup
  cases event with
  | add store r =>
    rcases orphans.flow_add_cases rules store r with ⟨hstep, hflow, -⟩ |
      ⟨htracks, hstep, -, hflow⟩ <;> rw [hstep, hflow]
    · simp [Flow.Balances]
    · obtain ⟨receipts', h', hperm⟩ := h.file_perm htracks
      have hsubset : (orphans.file r).2.entries ⊆ orphans.entries ++ orphans.newEntries r := by
        refine List.Subset.trans (h.entries_file_subset r) ?_
        rw [h.newEntries_eq]
        split
        · exact List.subset_append_left _ _
        · exact List.Subset.refl _
      rw [← h.receipts_append_newEntries] at hperm
      simpa [Flow.Balances] using h'.perm_entries hsubset (h.ascending_append_newEntries r)
        (h.nodup_append_newEntries r) hperm
  | release block =>
    obtain ⟨receipts', h', hperm⟩ := h.release_perm rules block
    rw [← h.receipts_entries] at hperm
    simpa [Flow.Balances, flow, Orphans.step] using
      h'.perm_entries (h.entries_release_subset rules block) h.entries_ascending hnodup hperm
  | tick slot =>
    obtain ⟨receipts', h', hperm⟩ := h.tick_perm slot
    have hdropped := h.dropped_eq slot
    nth_rewrite 1 [← h.receipts_entries] at hperm
    have hbalance := h'.perm_entries (h.entries_tick_subset slot) h.entries_ascending hnodup hperm
    rw [← hdropped] at hbalance
    simpa [Flow.Balances, flow, Orphans.step] using hbalance

/-- Every entry that is made takes the next number. -/
theorem Holds.flow_numbers (h : orphans.Holds receipts) (rules : ChainRules p)
    (event : OrphanEvent σ p) :
    (orphans.flow rules event).stored.map (·.number) =
        List.range' orphans.index.nextNumber (orphans.flow rules event).stored.length ∧
      (orphans.step rules event).index.nextNumber =
        orphans.index.nextNumber + (orphans.flow rules event).stored.length := by
  cases event with
  | add store r =>
    rcases orphans.flow_add_cases rules store r with ⟨hstep, hflow, -⟩ |
      ⟨-, hstep, -, hflow⟩ <;> rw [hstep, hflow]
    · exact ⟨rfl, rfl⟩
    · rw [h.newEntries_eq, h.nextNumber_file]
      split <;> exact ⟨rfl, rfl⟩
  | release block =>
    obtain ⟨rows, places, size, hframe⟩ := orphans.release_frame rules block
    refine ⟨rfl, ?_⟩
    rw [Orphans.step, hframe]
    rfl
  | tick slot =>
    obtain ⟨rows, places, size, hframe⟩ := h.tick_frame slot
    refine ⟨rfl, ?_⟩
    rw [Orphans.step, hframe]
    rfl

/-! ## Runs -/

theorem Holds.totalFlow_balances (h : orphans.Holds receipts) (rules : ChainRules p)
    (events : List (OrphanEvent σ p)) :
    (orphans.totalFlow rules events).Balances orphans.entries
      (orphans.run rules events).entries := by
  induction events generalizing orphans receipts with
  | nil => simp [totalFlow, Flow.Balances, Orphans.run]
  | cons event rest ih =>
    obtain ⟨receipts', h'⟩ := h.step rules event
    exact (h.flow_balances rules event).append (ih h')

theorem Holds.totalFlow_numbers (h : orphans.Holds receipts) (rules : ChainRules p)
    (events : List (OrphanEvent σ p)) :
    (orphans.totalFlow rules events).stored.map (·.number) =
      List.range' orphans.index.nextNumber (orphans.totalFlow rules events).stored.length := by
  induction events generalizing orphans receipts with
  | nil => rfl
  | cons event rest ih =>
    obtain ⟨receipts', h'⟩ := h.step rules event
    obtain ⟨hfirst, hnext⟩ := h.flow_numbers rules event
    rw [totalFlow, Flow.append, List.map_append, hfirst, ih h', hnext, List.length_append,
      List.range'_append_1]

/-- What is answered are the receipts of the entries that leave, as they were when they came. A
block of the window takes out all entries for it, in the order in which they were stored, and none
is left for a second block with its root. -/
structure Answers (σ : Type) [BlockStore σ] (rules : ChainRules p) (orphans : Orphans p) :
    Prop where
  displaced_eq : ∀ (store : σ) received evicted,
    (orphans.add store received).1 = .ok (.kept evicted) →
    (orphans.flow rules (.add store received)).displaced.map (·.receipt) = evicted.toList
  released_eq : ∀ block, (orphans.release rules block).1 =
    (orphans.flow rules (.release block : OrphanEvent σ p)).released.map (·.receipt)
  released_ascending : ∀ block,
    (orphans.flow rules (.release block : OrphanEvent σ p)).released.Pairwise
      fun a b => a.number < b.number
  mem_released_iff : ∀ block e,
    e ∈ (orphans.flow rules (.release block : OrphanEvent σ p)).released ↔ e ∈ orphans.entries ∧
      orphans.tracks (p.epochAt block.slot) = true ∧
      e.receipt.attestation.data.beaconBlockRoot = rules.blockRoot block
  released_once : ∀ block again, orphans.tracks (p.epochAt block.slot) = true →
    rules.blockRoot again = rules.blockRoot block →
    ((orphans.release rules block).2.1.release rules again).1 = []

theorem Holds.answers (h : orphans.Holds receipts) (rules : ChainRules p) :
    orphans.Answers σ rules where
  displaced_eq := by
    intro store r evicted hanswer
    rcases orphans.flow_add_cases rules store r with ⟨-, -, hnone⟩ | ⟨htracks, -, hkept, hflow⟩
    · exact absurd hanswer (hnone evicted)
    · cases hkept.symm.trans hanswer
      obtain ⟨receipts', -, hperm⟩ := h.file_perm htracks
      rw [← h.receipts_append_newEntries] at hperm
      rw [hflow]
      have hreceipts := receipts_filter_perm (h.nodup_append_newEntries r) hperm
      cases hevicted : (orphans.file r).1 with
      | none =>
        rw [hevicted] at hreceipts
        exact hreceipts.eq_nil
      | some oldest =>
        rw [hevicted] at hreceipts
        exact List.perm_singleton.mp hreceipts
  released_eq := by
    intro block
    rw [flow, receipts_filter, h.receipts_entries]
    cases htracks : orphans.tracks (p.epochAt block.slot) with
    | false => simp [release_outside rules orphans htracks]
    | true =>
      rw [(h.release rules htracks).1]
      exact List.filter_congr fun r hr => by simp [hr]
  released_ascending := by
    intro block
    exact h.entries_ascending.filter _
  mem_released_iff := by
    intro block e
    rw [h.released_eq, List.mem_filter, decide_eq_true_eq]
    exact Iff.rfl
  released_once := by
    intro block again htracks hroot
    have hrest := (h.release rules htracks).2
    cases hagain : orphans.tracks (p.epochAt again.slot) with
    | false => rw [release_outside rules _ (by rwa [tracks_release])]
    | true =>
      rw [(hrest.release rules (by rwa [tracks_release])).1, hroot, List.filter_filter]
      simp

/-- Along every run, what was ever stored is what is still stored, and what was released, displaced
and dropped; each time something is stored it is an entry of its own, which is at one of these
places and there once. -/
theorem run_conserves {σ : Type} [BlockStore σ] {p : Preset} (rules : ChainRules p)
    (lookahead : UInt64) (capacity : Capacity) (events : List (OrphanEvent σ p)) :
    let flow := (empty lookahead capacity : Orphans p).totalFlow rules events
    let final := (empty lookahead capacity : Orphans p).run rules events
    let places := final.entries ++ flow.released ++ flow.displaced ++ flow.dropped
    flow.stored.Perm places ∧ (places.map (·.number)).Nodup ∧
      flow.stored.map (·.number) = List.range flow.stored.length ∧
      (final.entries.map (·.receipt)).Perm final.index.values ∧ final.Answers σ rules := by
  have hstart : (empty lookahead capacity : Orphans p).Holds [] := holds_empty lookahead capacity
  have hempty : (empty lookahead capacity : Orphans p).entries = [] :=
    List.map_eq_nil_iff.mp hstart.receipts_entries
  have hbalance := hstart.totalFlow_balances rules events
  have hnumbers := hstart.totalFlow_numbers rules events
  rw [hempty, Flow.Balances, List.nil_append] at hbalance
  rw [show (empty lookahead capacity : Orphans p).index.nextNumber = 0 from rfl,
    ← List.range_eq_range'] at hnumbers
  obtain ⟨receipts, hfinal⟩ := hstart.run rules events
  refine ⟨hbalance, ?_, hnumbers, entries_perm_values _, hfinal.answers rules⟩
  rw [← (hbalance.map _).nodup_iff, hnumbers]
  exact List.nodup_range

end Orphans

end AttestationIntake
