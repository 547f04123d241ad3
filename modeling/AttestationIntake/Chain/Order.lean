import AttestationIntake.Chain.Container

/-!
The order of attestations: by bits, then by data, then by signature. Data compare field by field in
the order of their declaration, and so do checkpoints. The order is total and takes two values for
equal only if they are the same, so a sorted set of attestations holds each of them once.
-/

namespace AttestationIntake

open Std (TransCmp TransOrd LawfulEqOrd)

instance : Ord Checkpoint :=
  ⟨compareLex (compareOn (·.epoch)) (compareOn (·.root))⟩

instance : TransOrd Checkpoint :=
  inferInstanceAs (TransCmp (compareLex (compareOn _) (compareOn _)))

instance : LawfulEqOrd Checkpoint where
  eq_of_compare {a b} h := by
    obtain ⟨epoch, root⟩ := compareLex_eq_eq.mp h
    cases a; cases b
    simp only [Checkpoint.mk.injEq]
    exact ⟨LawfulEqOrd.eq_of_compare epoch, LawfulEqOrd.eq_of_compare root⟩

instance : Ord AttestationData :=
  ⟨compareLex (compareOn (·.slot)) <| compareLex (compareOn (·.index)) <|
    compareLex (compareOn (·.beaconBlockRoot)) <| compareLex (compareOn (·.source))
      (compareOn (·.target))⟩

instance : TransOrd AttestationData :=
  inferInstanceAs (TransCmp (compareLex (compareOn _) (compareLex (compareOn _)
    (compareLex (compareOn _) (compareLex (compareOn _) (compareOn _))))))

instance : LawfulEqOrd AttestationData where
  eq_of_compare {a b} h := by
    obtain ⟨slot, h⟩ := compareLex_eq_eq.mp h
    obtain ⟨index, h⟩ := compareLex_eq_eq.mp h
    obtain ⟨root, h⟩ := compareLex_eq_eq.mp h
    obtain ⟨source, target⟩ := compareLex_eq_eq.mp h
    cases a; cases b
    simp only [AttestationData.mk.injEq]
    exact ⟨LawfulEqOrd.eq_of_compare slot, LawfulEqOrd.eq_of_compare index,
      LawfulEqOrd.eq_of_compare root, LawfulEqOrd.eq_of_compare source,
      LawfulEqOrd.eq_of_compare target⟩

variable {p : Preset}

instance : Ord (Attestation p) :=
  ⟨compareLex (compareOn (·.aggregationBits)) <| compareLex (compareOn (·.data))
    (compareOn (·.signature))⟩

instance : TransOrd (Attestation p) :=
  inferInstanceAs (TransCmp (compareLex (compareOn _) (compareLex (compareOn _) (compareOn _))))

instance : LawfulEqOrd (Attestation p) where
  eq_of_compare {a b} h := by
    obtain ⟨bits, rest⟩ := compareLex_eq_eq.mp h
    obtain ⟨data, signature⟩ := compareLex_eq_eq.mp rest
    cases a; cases b
    simp only [Attestation.mk.injEq]
    exact ⟨LawfulEqOrd.eq_of_compare bits, LawfulEqOrd.eq_of_compare data,
      LawfulEqOrd.eq_of_compare signature⟩

end AttestationIntake
