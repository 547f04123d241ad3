import AttestationIntake.Proofs.Bits.Positions
import AttestationIntake.Proofs.Pool.ClosedForm

/-!
Which attestations of a pool are off chain for a state: those it accepts whose bits are not just the
union of the bits it has included for their data. Records only count by what they set, so neither
their order nor the epoch they are filed under matters.
-/

namespace AttestationIntake

open Std (ExtTreeMap)

variable {p : Preset}

/-- Whether a position is set in some record that a state has for `data`. -/
def BeaconState.Included (state : BeaconState p) (data : AttestationData) (i : Nat) : Prop :=
  ∃ record, (record ∈ state.previousEpochAttestations ∨ record ∈ state.currentEpochAttestations) ∧
    record.data = data ∧ record.aggregationBits.IsSet i

theorem BeaconState.included_iff (state : BeaconState p) (data : AttestationData) (i : Nat) :
    state.Included data i ↔ ∃ record ∈ state.pendingAttestations,
      record.data = data ∧ record.aggregationBits.IsSet i := by
  simp only [Included, pendingAttestations, List.mem_append]

theorem BeaconState.included_perm {state state' : BeaconState p}
    (h : state.pendingAttestations.Perm state'.pendingAttestations) (data : AttestationData)
    (i : Nat) : state.Included data i ↔ state'.Included data i := by
  simp only [included_iff, h.mem_iff]

namespace Pool

/-! ## Joining records -/

/-- The bits of `included` are the unions of those of `records`, in lists of the greatest length. An
entry that is missing is a list with no bit set. -/
structure Joined (included : ExtTreeMap AttestationData (BitList p.committeeLimit))
    (records : List (PendingAttestation p)) : Prop where
  length_eq : ∀ data, (included.getD data (.zeros p.committeeLimit)).length = p.committeeLimit
  isSet_iff : ∀ data i, (included.getD data (.zeros p.committeeLimit)).IsSet i ↔
    ∃ record ∈ records, record.data = data ∧ record.aggregationBits.IsSet i

namespace Joined

variable {included : ExtTreeMap AttestationData (BitList p.committeeLimit)}
  {records : List (PendingAttestation p)}

theorem empty : Joined (p := p) ∅ [] where
  length_eq := by
    intro data
    rw [ExtTreeMap.getD_empty, BitList.length_zeros]
  isSet_iff := by
    intro data i
    rw [ExtTreeMap.getD_empty]
    simp

/-- A list of the greatest length has room for the bits of every record. -/
theorem includeRecord? (h : Joined included records) (record : PendingAttestation p) :
    ∃ included', Pool.includeRecord? included record = some included' ∧
      Joined included' (records ++ [record]) := by
  have hroom : record.aggregationBits.length ≤
      (included.getD record.data (.zeros p.committeeLimit)).length := by
    rw [h.length_eq]
    exact record.aggregationBits.length_le
  obtain ⟨joined, hor, hlength, hset⟩ := BitList.exists_or? _ _ hroom
  refine ⟨included.insert record.data joined, ?_, ?_, ?_⟩
  · rw [Pool.includeRecord?, hor]
    rfl
  · intro data
    rw [ExtTreeMap.getD_insert]
    split
    · rw [hlength, h.length_eq]
    · exact h.length_eq data
  · intro data i
    simp only [ExtTreeMap.getD_insert, Std.compare_eq_iff_eq, List.mem_append, List.mem_singleton,
      or_and_right, exists_or, exists_eq_left]
    split
    -- Only the union for the data of the record grows.
    · rename_i hdata
      subst hdata
      rw [hset, h.isSet_iff]
      simp only [true_and]
    · rename_i hdata
      rw [h.isSet_iff]
      simp only [hdata, false_and, or_false]

theorem foldlM (h : Joined included records) (more : List (PendingAttestation p)) :
    ∃ included', more.foldlM Pool.includeRecord? included = some included' ∧
      Joined included' (records ++ more) := by
  induction more generalizing included records with
  | nil => exact ⟨included, rfl, by rwa [List.append_nil]⟩
  | cons record more ih =>
    obtain ⟨next, hnext, hjoined⟩ := h.includeRecord? record
    obtain ⟨last, hlast, hall⟩ := ih hjoined
    refine ⟨last, ?_, ?_⟩
    · rw [List.foldlM_cons, hnext]
      exact hlast
    · rwa [List.append_assoc] at hall

theorem addsBits_iff (h : Joined included records) (a : Attestation p) :
    addsBits included a = true ↔ ¬∀ i, a.aggregationBits.IsSet i ↔
      ∃ record ∈ records, record.data = a.data ∧ record.aggregationBits.IsSet i := by
  simp only [← h.isSet_iff, ExtTreeMap.getD_eq_getD_getElem?]
  unfold addsBits
  split
  · rename_i bits hbits
    -- The entry has the positions of the union.
    rw [hbits, Option.getD_some, Bool.not_eq_true', ← Bool.not_eq_true, BitList.hasSameBits_iff]
    simp only [iff_comm]
  · rename_i hbits
    -- With no entry the union is empty, and any bit is one to add.
    rw [hbits, Option.getD_none, BitList.any_iff]
    simp only [BitList.not_isSet_zeros, iff_false, not_forall, not_not]

end Joined

/-! ## Selecting attestations -/

/-- There is a result for every state. What it selects by are the positions included. -/
theorem exists_offChain? (rules : ChainRules p) (pool : Pool p) (state : BeaconState p) :
    ∃ adds : Attestation p → Bool,
      pool.offChain? rules state =
        some (pool.attestations.filter fun a => adds a && rules.accepts state a) ∧
      ∀ a, adds a = true ↔ ¬∀ i, a.aggregationBits.IsSet i ↔ state.Included a.data i := by
  obtain ⟨included, hfold, hjoined⟩ := Joined.empty.foldlM state.pendingAttestations
  refine ⟨addsBits included, ?_, ?_⟩
  · rw [offChain?, includedBits?, hfold]
    rfl
  · intro a
    simp only [hjoined.addsBits_iff, BeaconState.included_iff, List.nil_append]

/-- After any events and for every state, the result is exactly what is pooled, accepted and sets
other positions than those included, in ascending order. It depends on the records of a state only
as a whole. -/
theorem offChain?_exact (historic : UInt64) (start : Epoch) (events : List (PoolEvent p))
    (rules : ChainRules p) (state : BeaconState p) :
    ∃ result, ((empty historic start).run events).offChain? rules state = some result ∧
      (∀ a, a ∈ result ↔
        (∃ epoch, a ∈ ((empty historic start).run events).targeting epoch) ∧
          rules.accepts state a = true ∧
          ¬∀ i, a.aggregationBits.IsSet i ↔ state.Included a.data i) ∧
      result.Nodup ∧ result.Pairwise Before ∧
      ∀ (rules' : ChainRules p) (state' : BeaconState p),
        state.pendingAttestations.Perm state'.pendingAttestations →
        rules'.accepts state' = rules.accepts state →
        ((empty historic start).run events).offChain? rules' state' = some result := by
  have hwf := (wellFormed_empty historic start).run events
  generalize (empty historic start).run events = pool at hwf
  obtain ⟨adds, hresult, hadds⟩ := exists_offChain? rules pool state
  have hascending : (pool.attestations.filter fun a =>
      adds a && rules.accepts state a).Pairwise Before := hwf.attestations_ascending.filter _
  refine ⟨_, hresult, ?_, nodup_of_ascending hascending, hascending, ?_⟩
  · intro a
    rw [List.mem_filter, mem_attestations, Bool.and_eq_true, hadds, and_comm (b := _ = true)]
  · intro rules' state' hperm haccepts
    obtain ⟨adds', hresult', hadds'⟩ := exists_offChain? rules' pool state'
    have heq : adds' = adds := by
      funext a
      rw [Bool.eq_iff_iff, hadds, hadds']
      simp only [BeaconState.included_perm hperm]
    rw [hresult', heq, haccepts]

/-- Two records can be filed under different epochs or under one. An attestation of just the bits of
both is on chain, and one that sets a bit more is not. -/
theorem offChain?_of_refiled_records :
    let bits (list : List Bool) (h : list.length ≤ 2048) : BitList Preset.minimal.committeeLimit :=
      ⟨list, h⟩
    let covered : Attestation .minimal := { aggregationBits := bits [true, true] (by decide) }
    let wider : Attestation .minimal := { aggregationBits := bits [true, true, true] (by decide) }
    let pool := (empty 1 0).run [.submit covered, .submit wider]
    let first : PendingAttestation .minimal := ⟨bits [true] (by decide), {}, 1, 0⟩
    let second : PendingAttestation .minimal := ⟨bits [false, true] (by decide), {}, 2, 0⟩
    pool.offChain? (.rejecting []) ⟨0, [first], [second]⟩ = some [wider] ∧
      pool.offChain? (.rejecting []) ⟨0, [], [second, first]⟩ = some [wider] := by
  intro bits covered wider pool first second
  obtain ⟨result, hresult, -, -, -, hsame⟩ := offChain?_exact 1 0 [.submit covered, .submit wider]
    (.rejecting []) ⟨0, [first], [second]⟩
  have hwider : pool.offChain? (.rejecting []) ⟨0, [first], [second]⟩ = some [wider] := by
    decide +kernel
  have hrefiled := hsame (.rejecting []) ⟨0, [], [second, first]⟩ (List.Perm.swap _ _ []) rfl
  exact ⟨hwider, hrefiled.trans (hresult.symm.trans hwider)⟩

end Pool

end AttestationIntake
