import AttestationIntake.Intake

/-!
Changes of the figures of a tally, one after the other. Two changes of one figure are one change,
and changes of different figures can be exchanged. Figures are different only if the digests of
their labels are, which is so for the outcomes.
-/

namespace AttestationIntake

open Std (ExtTreeMap)

namespace Family

variable {labels labels' : List (String × String)} {change change' : Nat → Nat}

theorem ext_getElem? {family family' : Family}
    (h : ∀ key : UInt64, family.figures[key]? = family'.figures[key]?) : family = family' := by
  obtain ⟨figures⟩ := family
  obtain ⟨figures'⟩ := family'
  exact congrArg mk (ExtTreeMap.ext_getElem? h)

theorem getElem?_update (family : Family) (labels : List (String × String)) (change : Nat → Nat)
    (key' : UInt64) : (family.update labels change).figures[key']? =
      if key labels = key' then
        let figure := family.figures[key labels]?.getD { labels }
        some { figure with value := change figure.value }
      else family.figures[key']? := by
  simp only [update, ExtTreeMap.getElem?_insert, Std.compare_eq_iff_eq]

theorem update_update (family : Family) (labels : List (String × String))
    (change change' : Nat → Nat) :
    (family.update labels change).update labels change' =
      family.update labels (change' ∘ change) := by
  apply ext_getElem?
  intro key'
  rw [getElem?_update, getElem?_update, getElem?_update, getElem?_update, if_pos rfl]
  split <;> rfl

theorem update_comm (family : Family) (h : key labels ≠ key labels') :
    (family.update labels change).update labels' change' =
      (family.update labels' change').update labels change := by
  apply ext_getElem?
  intro key'
  simp only [getElem?_update, h, Ne.symm h, if_false]
  split
  · rename_i heq
    subst heq
    rw [if_neg h]
  · rfl

theorem value_update (family : Family) (labels labels' : List (String × String))
    (change : Nat → Nat) : (family.update labels change).value labels' =
      if key labels = key labels' then change (family.value labels) else family.value labels' := by
  rw [value, getElem?_update]
  split
  · rw [value]
    cases family.figures[key labels]? <;> rfl
  · rfl

end Family

theorem Outcome.key_injective {outcome outcome' : Outcome}
    (h : Family.key [("outcome", outcome.label)] = Family.key [("outcome", outcome'.label)]) :
    outcome = outcome' := by
  cases outcome <;> cases outcome' <;> first | rfl | exact absurd h (by decide +kernel)

namespace Tally

theorem countOutcome_comm (tally : Tally) (outcome outcome' : Outcome) :
    (tally.countOutcome outcome.label).countOutcome outcome'.label =
      (tally.countOutcome outcome'.label).countOutcome outcome.label := by
  by_cases heq : outcome = outcome'
  · rw [heq]
  · have hkey := mt Outcome.key_injective heq
    simp only [countOutcome, Family.count, Family.update_comm _ hkey]

theorem setLength_setLength (tally : Tally) (type name : String) (length length' : Nat) :
    (tally.setLength type name length).setLength type name length' =
      tally.setLength type name length' := by
  simp only [setLength, Family.update_update]
  rfl

theorem setLength_comm (tally : Tally) {type type' name name' : String} (length length' : Nat)
    (h : Family.key (lengthLabels type name) ≠ Family.key (lengthLabels type' name')) :
    (tally.setLength type name length).setLength type' name' length' =
      (tally.setLength type' name' length').setLength type name length := by
  simp only [setLength, Family.update_comm _ h]

/-- Both lengths that an intake makes known. -/
def setLengths (tally : Tally) (counts : ShownCounts) : Tally :=
  (tally.setLength Intake.collectionType "pooled" counts.pooled).setLength Intake.collectionType
    "orphaned" counts.orphaned

theorem setLengths_setLengths (tally : Tally) (counts counts' : ShownCounts) :
    (tally.setLengths counts).setLengths counts' = tally.setLengths counts' := by
  have hkeys : Family.key (lengthLabels Intake.collectionType "orphaned") ≠
      Family.key (lengthLabels Intake.collectionType "pooled") := by decide +kernel
  rw [setLengths, setLengths, setLength_comm _ _ _ hkeys, setLength_setLength, setLength_setLength,
    ← setLengths]

theorem countTime_setLengths (tally : Tally) (operation : String) (counts : ShownCounts) :
    (tally.setLengths counts).countTime operation =
      (tally.countTime operation).setLengths counts := rfl

theorem countOutcome_setLengths (tally : Tally) (outcome : String) (counts : ShownCounts) :
    (tally.setLengths counts).countOutcome outcome =
      (tally.countOutcome outcome).setLengths counts := rfl

end Tally

end AttestationIntake
