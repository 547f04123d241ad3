import AttestationIntake.Chain.Epoch

/-!
Capped arithmetic on words, as arithmetic on natural numbers that is cut off at both ends.
-/

namespace AttestationIntake

theorem toNat_wordMax : wordMax.toNat = UInt64.size - 1 := rfl

theorem toNat_addCapped (a b : UInt64) :
    (addCapped a b).toNat = min (a.toNat + b.toNat) (UInt64.size - 1) := by
  unfold addCapped
  split
  · rename_i hfits
    rw [UInt64.toNat_add, Nat.mod_eq_of_lt hfits]
    exact (Nat.min_eq_left (Nat.le_sub_one_of_lt hfits)).symm
  · rename_i hlarge
    rw [toNat_wordMax, Nat.min_eq_right]
    exact Nat.le_trans (Nat.sub_le _ _) (Nat.le_of_not_lt hlarge)

theorem toNat_subCapped (a b : UInt64) : (subCapped a b).toNat = a.toNat - b.toNat := by
  unfold subCapped
  split
  · rename_i hle
    exact UInt64.toNat_sub_of_le _ _ hle
  · rename_i hgt
    have hlt := UInt64.lt_iff_toNat_lt.mp (UInt64.not_le.mp hgt)
    rw [Nat.sub_eq_zero_of_le (Nat.le_of_lt hlt)]
    rfl

theorem subCapped_mono {a b : UInt64} (h : a ≤ b) (c : UInt64) : subCapped a c ≤ subCapped b c := by
  rw [UInt64.le_iff_toNat_le] at h ⊢
  rw [toNat_subCapped, toNat_subCapped]
  exact Nat.sub_le_sub_right h c.toNat

theorem toNat_max (a b : UInt64) : (max a b).toNat = max a.toNat b.toNat := by
  change (if a ≤ b then b else a).toNat = _
  split
  · rename_i hle
    exact (Nat.max_eq_right (UInt64.le_iff_toNat_le.mp hle)).symm
  · rename_i hgt
    have hlt := UInt64.lt_iff_toNat_lt.mp (UInt64.not_le.mp hgt)
    exact (Nat.max_eq_left (Nat.le_of_lt hlt)).symm

theorem max_eq_of_ge {a b : UInt64} (h : b ≤ a) : max a b = a := by
  rw [← UInt64.toNat_inj, toNat_max]
  exact Nat.max_eq_left (UInt64.le_iff_toNat_le.mp h)

theorem max_eq_of_le {a b : UInt64} (h : a ≤ b) : max a b = b := by
  rw [← UInt64.toNat_inj, toNat_max]
  exact Nat.max_eq_right (UInt64.le_iff_toNat_le.mp h)

instance instLawfulOrderMaxWord : Std.LawfulOrderMax UInt64 where
  max_eq_or := by
    intro a b
    by_cases h : a ≤ b
    · exact .inr (max_eq_of_le h)
    · exact .inl (max_eq_of_ge (UInt64.le_of_lt (UInt64.not_le.mp h)))
  max_le_iff := by
    intro a b c
    rw [UInt64.le_iff_toNat_le, UInt64.le_iff_toNat_le, UInt64.le_iff_toNat_le, toNat_max]
    exact Nat.max_le

theorem max_max (a b c : UInt64) : max (max a b) c = max a (max b c) :=
  Std.Associative.assoc a b c

namespace Preset

theorem epochAt_mono (p : Preset) {a b : Slot} (h : a ≤ b) : p.epochAt a ≤ p.epochAt b := by
  rw [UInt64.le_iff_toNat_le] at h ⊢
  rw [epochAt, epochAt, UInt64.toNat_div, UInt64.toNat_div]
  exact Nat.div_le_div_right h

theorem epochAt_max (p : Preset) (a b : Slot) :
    p.epochAt (max a b) = max (p.epochAt a) (p.epochAt b) := by
  by_cases h : a ≤ b
  · rw [max_eq_of_le h, max_eq_of_le (p.epochAt_mono h)]
  · have hle := UInt64.le_of_lt (UInt64.not_le.mp h)
    rw [max_eq_of_ge hle, max_eq_of_ge (p.epochAt_mono hle)]

end Preset

end AttestationIntake
