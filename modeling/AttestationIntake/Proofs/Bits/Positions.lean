import AttestationIntake.Bits.BitList
import Mathlib.Data.List.Sort

/-!
Bit lists as sets of positions. Joining lists is the union of their sets, and `hasSameBits` is
equality of the sets; lengths only decide which lists can be joined.
-/

namespace AttestationIntake.BitList

variable {max : Nat}

/-- Whether the bit at a position is set. Positions past the end are unset. -/
def IsSet (list : BitList max) (i : Nat) : Prop := list.bits[i]? = some true

theorem IsSet.lt_length {list : BitList max} {i : Nat} (h : list.IsSet i) : i < list.length :=
  (List.getElem?_eq_some_iff.mp h).1

/-! ## Positions of set bits -/

theorem mem_onesFrom (start : Nat) (bits : List Bool) (i : Nat) :
    i ∈ onesFrom start bits ↔ start ≤ i ∧ bits[i - start]? = some true := by
  induction bits generalizing start with
  | nil => simp [onesFrom]
  | cons bit bits ih =>
    by_cases hfirst : i = start
    · subst hfirst
      have hlater : ¬i + 1 ≤ i := Nat.not_succ_le_self i
      cases bit <;> simp [onesFrom, ih, hlater]
    -- Any other position is one of the rest, where it comes one earlier.
    · have hmem : i ∈ onesFrom start (bit :: bits) ↔ i ∈ onesFrom (start + 1) bits := by
        cases bit <;> simp [onesFrom, hfirst]
      rw [hmem, ih]
      constructor
      · rintro ⟨hle, hbit⟩
        refine ⟨by omega, ?_⟩
        rwa [show i - start = (i - (start + 1)) + 1 by omega, List.getElem?_cons_succ]
      · rintro ⟨hle, hbit⟩
        refine ⟨by omega, ?_⟩
        rwa [show i - start = (i - (start + 1)) + 1 by omega, List.getElem?_cons_succ] at hbit

theorem onesFrom_ascending (start : Nat) (bits : List Bool) :
    (onesFrom start bits).Pairwise (· < ·) := by
  induction bits generalizing start with
  | nil => exact .nil
  | cons bit bits ih =>
    cases bit with
    | false => exact ih (start + 1)
    | true =>
      refine .cons ?_ (ih (start + 1))
      intro i hi
      exact ((mem_onesFrom (start + 1) bits i).mp hi).1

theorem mem_ones (list : BitList max) (i : Nat) : i ∈ list.ones ↔ list.IsSet i := by
  rw [ones, mem_onesFrom]
  simp [IsSet]

theorem hasSameBits_iff (a b : BitList max) :
    a.hasSameBits b = true ↔ ∀ i, a.IsSet i ↔ b.IsSet i := by
  rw [hasSameBits, beq_iff_eq]
  constructor
  · intro heq i
    rw [← mem_ones, ← mem_ones, heq]
  · intro hsame
    apply (onesFrom_ascending 0 a.bits).eq_of_mem_iff (onesFrom_ascending 0 b.bits)
    intro i
    exact (mem_ones a i).trans ((hsame i).trans (mem_ones b i).symm)

theorem any_iff (list : BitList max) : list.any = true ↔ ∃ i, list.IsSet i := by
  simp only [any, IsSet, List.any_eq_true, id_eq]
  constructor
  · rintro ⟨bit, hmem, rfl⟩
    exact List.mem_iff_getElem?.mp hmem
  · rintro ⟨i, hset⟩
    exact ⟨true, List.mem_of_getElem? hset, rfl⟩

/-! ## Joining lists -/

@[simp]
theorem length_zeros : (zeros max).length = max := List.length_replicate

@[simp]
theorem not_isSet_zeros (i : Nat) : ¬(zeros max).IsSet i := by
  simp [IsSet, zeros, List.getElem?_replicate]

theorem getElem?_joinBits (bits others : List Bool) (i : Nat) (hi : i < bits.length) :
    (joinBits bits others)[i]? = some true ↔ bits[i]? = some true ∨ others[i]? = some true := by
  induction bits generalizing others i with
  | nil => exact absurd hi (Nat.not_lt_zero i)
  | cons bit bits ih =>
    cases others with
    | nil => simp [joinBits]
    | cons other others =>
      cases i with
      | zero => simp [joinBits]
      | succ i => simpa [joinBits] using ih others i (Nat.lt_of_succ_lt_succ hi)

/-- A list that is long enough takes in the positions of another one. -/
theorem exists_or? (list other : BitList max) (hlength : other.length ≤ list.length) :
    ∃ joined, list.or? other = some joined ∧ joined.length = list.length ∧
      ∀ i, joined.IsSet i ↔ list.IsSet i ∨ other.IsSet i := by
  rw [or?, if_pos hlength]
  refine ⟨_, rfl, length_joinBits .., ?_⟩
  intro i
  by_cases hi : i < list.length
  · exact getElem?_joinBits list.bits other.bits i hi
  -- Past the end of the list nothing is set: the joined list and the other are no longer.
  · have hpast : ∀ l : BitList max, l.length ≤ list.length → ¬l.IsSet i :=
      fun l hle hset => hi (Nat.lt_of_lt_of_le hset.lt_length hle)
    apply iff_of_false
    · exact hpast _ (Nat.le_of_eq (length_joinBits list.bits other.bits))
    · rintro (hset | hset)
      · exact hpast _ (Nat.le_refl _) hset
      · exact hpast _ hlength hset

end AttestationIntake.BitList
