import AttestationIntake.Proofs.Chain.Epoch

/-!
Slots and epochs convert to each other by a Galois connection: an epoch has started by a slot just
if it is not after the epoch of that slot. First slots that are too large are cut off at the
greatest word, which is the one slot for which this fails, as all later epochs seem to start there.
-/

namespace AttestationIntake

theorem toNat_mulCapped (a b : UInt64) :
    (mulCapped a b).toNat = min (a.toNat * b.toNat) (UInt64.size - 1) := by
  unfold mulCapped
  split
  · rename_i hfits
    rw [UInt64.toNat_mul, Nat.mod_eq_of_lt hfits]
    exact (Nat.min_eq_left (Nat.le_sub_one_of_lt hfits)).symm
  · rename_i hlarge
    rw [toNat_wordMax, Nat.min_eq_right]
    exact Nat.le_trans (Nat.sub_le _ _) (Nat.le_of_not_lt hlarge)

theorem previousEpoch_le (epoch : Epoch) : previousEpoch epoch ≤ epoch := by
  rw [UInt64.le_iff_toNat_le, previousEpoch, toNat_subCapped]
  exact Nat.sub_le _ _

namespace Preset

theorem slotsPerEpoch_pos (p : Preset) : 0 < p.slotsPerEpoch.toNat := by
  cases p <;> decide

theorem toNat_epochAt (p : Preset) (slot : Slot) :
    (p.epochAt slot).toNat = slot.toNat / p.slotsPerEpoch.toNat :=
  UInt64.toNat_div slot p.slotsPerEpoch

theorem toNat_startSlot (p : Preset) (epoch : Epoch) :
    (p.startSlot epoch).toNat = min (epoch.toNat * p.slotsPerEpoch.toNat) (UInt64.size - 1) :=
  toNat_mulCapped epoch p.slotsPerEpoch

theorem startSlot_le_iff (p : Preset) (epoch : Epoch) {slot : Slot} (h : slot < wordMax) :
    p.startSlot epoch ≤ slot ↔ epoch ≤ p.epochAt slot := by
  rw [UInt64.lt_iff_toNat_lt, toNat_wordMax] at h
  rw [UInt64.le_iff_toNat_le, UInt64.le_iff_toNat_le, toNat_startSlot, toNat_epochAt,
    Nat.le_div_iff_mul_le p.slotsPerEpoch_pos]
  -- The cut does not matter, since the slot is below it.
  omega

theorem epochAt_startSlot (p : Preset) {epoch : Epoch} (h : epoch ≤ wordMax / p.slotsPerEpoch) :
    p.epochAt (p.startSlot epoch) = epoch := by
  rw [UInt64.le_iff_toNat_le, UInt64.toNat_div, toNat_wordMax,
    Nat.le_div_iff_mul_le p.slotsPerEpoch_pos] at h
  rw [← UInt64.toNat_inj, toNat_epochAt, toNat_startSlot, Nat.min_eq_left h,
    Nat.mul_div_cancel _ p.slotsPerEpoch_pos]

theorem slot_in_range (p : Preset) (slot : Slot) :
    (p.epochAt slot).toNat * p.slotsPerEpoch.toNat ≤ slot.toNat ∧
      slot.toNat < ((p.epochAt slot).toNat + 1) * p.slotsPerEpoch.toNat := by
  rw [toNat_epochAt]
  constructor
  · exact Nat.div_mul_le_self _ _
  · rw [Nat.add_mul, Nat.one_mul]
    exact Nat.lt_div_mul_add p.slotsPerEpoch_pos

theorem startSlot_epochAt_le (p : Preset) (slot : Slot) : p.startSlot (p.epochAt slot) ≤ slot := by
  rw [UInt64.le_iff_toNat_le, toNat_startSlot]
  exact Nat.le_trans (Nat.min_le_left _ _) (p.slot_in_range slot).1

theorem toNat_next_epochAt (p : Preset) (slot : Slot) :
    (p.epochAt slot + 1).toNat = (p.epochAt slot).toNat + 1 := by
  have hslot := slot.toNat_lt
  have hfits : slot.toNat / p.slotsPerEpoch.toNat + 1 < UInt64.size := by
    cases p with
    | mainnet =>
      show slot.toNat / 32 + 1 < 2 ^ 64
      omega
    | minimal =>
      show slot.toNat / 8 + 1 < 2 ^ 64
      omega
  rw [UInt64.toNat_add, toNat_epochAt]
  exact Nat.mod_eq_of_lt hfits

theorem lt_startSlot_next (p : Preset) {slot : Slot} (h : slot < wordMax) :
    slot < p.startSlot (p.epochAt slot + 1) := by
  rw [← UInt64.not_le, p.startSlot_le_iff _ h, UInt64.le_iff_toNat_le, toNat_next_epochAt]
  omega

/-- How slots and epochs convert to each other, up to the end of the range of words. -/
structure Converts (p : Preset) : Prop where
  /-- Also where the first slot of the epoch is cut off. -/
  galois : ∀ (epoch : Epoch) (slot : Slot), slot < wordMax →
    (p.startSlot epoch ≤ slot ↔ epoch ≤ p.epochAt slot)
  mono : ∀ slot slot' : Slot, slot ≤ slot' → p.epochAt slot ≤ p.epochAt slot'
  inverse : ∀ epoch : Epoch, epoch ≤ wordMax / p.slotsPerEpoch →
    p.epochAt (p.startSlot epoch) = epoch
  /-- Every slot lies in its epoch, whose end may be past the range of words. -/
  range : ∀ slot : Slot, (p.epochAt slot).toNat * p.slotsPerEpoch.toNat ≤ slot.toNat ∧
    slot.toNat < ((p.epochAt slot).toNat + 1) * p.slotsPerEpoch.toNat
  start_le : ∀ slot : Slot, p.startSlot (p.epochAt slot) ≤ slot
  lt_next : ∀ slot : Slot, slot < wordMax → slot < p.startSlot (p.epochAt slot + 1)
  /-- The baselines for two slots. -/
  previous : ∀ slot slot' : Slot, slot ≤ slot' →
    previousEpoch (p.epochAt slot) ≤ previousEpoch (p.epochAt slot') ∧
      previousEpoch (p.epochAt slot') ≤ p.epochAt slot'

theorem converts (p : Preset) : p.Converts where
  galois epoch _ := p.startSlot_le_iff epoch
  mono _ _ := p.epochAt_mono
  inverse _ := p.epochAt_startSlot
  range := p.slot_in_range
  start_le := p.startSlot_epochAt_le
  lt_next _ := p.lt_startSlot_next
  previous := by
    intro slot slot' hle
    constructor
    · exact subCapped_mono (p.epochAt_mono hle) 1
    · exact previousEpoch_le _

/-- At the greatest word the connection fails: the first slot of an epoch that is never reached is
cut off there. -/
example : Preset.mainnet.startSlot wordMax ≤ wordMax ∧
    ¬wordMax ≤ Preset.mainnet.epochAt wordMax := by decide

end Preset

end AttestationIntake
