import AttestationIntake.Bits.Register
import AttestationIntake.Proofs.Bits.Positions

/-!
Joining and comparing bit lists of different lengths. Whatever is joined into a list of the greatest
length, in whatever order, the positions of all come together, and comparing lists is comparing them
with their ends filled up with unset bits. Two lists that compare the same can take each other's
place wherever they are joined, as far as their lengths allow it.
-/

namespace AttestationIntake.BitList

variable {max : Nat} {list other joined a b : BitList max}

/-- The bit at a position. Past the end it is unset. -/
def bitAt (list : BitList max) (i : Nat) : Bool := list.bits.getD i false

/-- The bits, followed by as many unset ones as there is room for. -/
def padded (list : BitList max) : List Bool :=
  list.bits ++ List.replicate (max - list.length) false

theorem bitAt_eq_true_iff (list : BitList max) (i : Nat) : list.bitAt i = true ↔ list.IsSet i := by
  rw [bitAt, List.getD_eq_getElem?_getD, IsSet]
  cases list.bits[i]? <;> simp

theorem bitAt_eq_getElem {i : Nat} (hi : i < list.bits.length) : list.bitAt i = list.bits[i] := by
  rw [bitAt, List.getD_eq_getElem?_getD, List.getElem?_eq_getElem hi, Option.getD_some]

theorem bitAt_eq_false_of_le (list : BitList max) {i : Nat} (hi : max ≤ i) :
    list.bitAt i = false := by
  rw [← Bool.not_eq_true, bitAt_eq_true_iff]
  intro hset
  exact Nat.not_lt.mpr hi (Nat.lt_of_lt_of_le hset.lt_length list.length_le)

/-! ## Joining -/

theorem or?_eq_none_iff (list other : BitList max) :
    list.or? other = none ↔ list.length < other.length := by
  unfold or?
  split <;> simp_all

theorem or?_eq_some (h : list.or? other = some joined) :
    joined.length = list.length ∧ ∀ i, joined.IsSet i ↔ list.IsSet i ∨ other.IsSet i := by
  have hlength : ¬list.length < other.length := by
    rw [← or?_eq_none_iff, h]
    exact Option.some_ne_none joined
  obtain ⟨_, hjoined, heffect⟩ := exists_or? list other (Nat.le_of_not_lt hlength)
  cases h.symm.trans hjoined
  exact heffect

/-- A list of the greatest length takes in any others. -/
theorem exists_foldlM_or? (lists : List (BitList max)) (start : BitList max)
    (hstart : start.length = max) : ∃ total, lists.foldlM or? start = some total ∧
      total.length = max ∧ ∀ i, total.IsSet i ↔ start.IsSet i ∨ ∃ l ∈ lists, l.IsSet i := by
  induction lists generalizing start with
  | nil => exact ⟨start, rfl, hstart, by simp⟩
  | cons first rest ih =>
    obtain ⟨next, hnext, hlength, hunion⟩ := exists_or? start first (hstart.symm ▸ first.length_le)
    obtain ⟨total, htotal, hmax, hset⟩ := ih next (hlength.trans hstart)
    refine ⟨total, ?_, hmax, ?_⟩
    · rw [List.foldlM_cons, hnext]
      exact htotal
    · intro i
      rw [hset, hunion, List.exists_mem_cons_iff, or_assoc]

/-! ## Comparing -/

theorem bitAt_eq_iff (a b : BitList max) (i : Nat) :
    a.bitAt i = b.bitAt i ↔ (a.IsSet i ↔ b.IsSet i) := by
  rw [Bool.eq_iff_iff, bitAt_eq_true_iff, bitAt_eq_true_iff]

theorem hasSameBits_iff_bitAt (a b : BitList max) :
    a.hasSameBits b = true ↔ ∀ i, a.bitAt i = b.bitAt i := by
  simp only [hasSameBits_iff, bitAt_eq_iff]

/-- A list is determined by its length and its bits. -/
theorem eq_iff_hasSameBits (a b : BitList max) :
    a = b ↔ a.hasSameBits b = true ∧ a.length = b.length := by
  constructor
  · intro heq
    subst heq
    exact ⟨(hasSameBits_iff a a).mpr fun _ => Iff.rfl, rfl⟩
  · intro ⟨hsame, hlength⟩
    rw [hasSameBits_iff_bitAt] at hsame
    have hbits : a.bits = b.bits := by
      apply List.ext_getElem hlength
      intro i ha hb
      have hbit := hsame i
      rwa [bitAt_eq_getElem ha, bitAt_eq_getElem hb] at hbit
    cases a
    cases b
    cases hbits
    rfl

theorem length_padded (list : BitList max) : list.padded.length = max := by
  rw [padded, List.length_append, List.length_replicate]
  exact Nat.add_sub_cancel' list.length_le

theorem getElem?_padded (list : BitList max) {i : Nat} (hi : i < max) :
    list.padded[i]? = some (list.bitAt i) := by
  rw [padded, bitAt, List.getD_eq_getElem?_getD]
  by_cases hlength : i < list.length
  · rw [List.getElem?_append_left hlength, List.getElem?_eq_getElem hlength, Option.getD_some]
  · have hpast := Nat.le_of_not_lt hlength
    rw [List.getElem?_append_right hpast, List.getElem?_eq_none hpast, Option.getD_none,
      List.getElem?_replicate_of_lt]
    show i - list.length < max - list.length
    omega

theorem padded_eq_iff (a b : BitList max) : a.padded = b.padded ↔ a.hasSameBits b = true := by
  rw [hasSameBits_iff_bitAt]
  constructor
  · intro heq i
    by_cases hi : i < max
    · have hbit := a.getElem?_padded hi
      rw [heq, b.getElem?_padded hi] at hbit
      exact (Option.some.inj hbit).symm
    · rw [bitAt_eq_false_of_le a (Nat.le_of_not_lt hi), bitAt_eq_false_of_le b (Nat.le_of_not_lt hi)]
  · intro hsame
    apply List.ext_getElem?'
    intro i hi
    rw [length_padded, length_padded, Nat.max_self] at hi
    rw [getElem?_padded a hi, getElem?_padded b hi, hsame i]

theorem zipWith_xor_eq_replicate_iff {bits bits' : List Bool} (h : bits.length = bits'.length) :
    List.zipWith xor bits bits' = List.replicate bits.length false ↔ bits = bits' := by
  induction bits generalizing bits' with
  | nil => simp [List.length_eq_zero_iff.mp h.symm]
  | cons bit bits ih =>
    cases bits' with
    | nil => cases h
    | cons bit' bits' =>
      rw [List.zipWith_cons_cons, List.length_cons, List.replicate_succ, List.cons.injEq,
        List.cons.injEq, ih (Nat.succ.inj h)]
      cases bit <;> cases bit' <;> simp

theorem hasSameBits_iff_xor (a b : BitList max) : a.hasSameBits b = true ↔
    List.zipWith xor a.padded b.padded = List.replicate max false := by
  have hlength := zipWith_xor_eq_replicate_iff (a.length_padded.trans b.length_padded.symm)
  rw [length_padded] at hlength
  rw [hlength, padded_eq_iff]

theorem hasSameBits_equivalence : Equivalence fun a b : BitList max => a.hasSameBits b = true := by
  simp only [hasSameBits_iff]
  exact ⟨fun _ _ => Iff.rfl, fun h i => (h i).symm, fun h h' i => (h i).trans (h' i)⟩

theorem hasSameBits_or? {a' b' joined' : BitList max} (ha : a.hasSameBits a' = true)
    (hb : b.hasSameBits b' = true) (h : a.or? b = some joined) (h' : a'.or? b' = some joined') :
    joined.hasSameBits joined' = true := by
  rw [hasSameBits_iff] at *
  intro i
  rw [(or?_eq_some h).2, (or?_eq_some h').2, ha, hb]

/-- What is joined into the longest list does not depend on order and multiplicity. -/
theorem foldlM_or?_congr {lists lists' : List (BitList max)} (hmem : ∀ l, l ∈ lists ↔ l ∈ lists') :
    lists.foldlM or? (zeros max) = lists'.foldlM or? (zeros max) := by
  obtain ⟨total, htotal, hlength, hset⟩ := exists_foldlM_or? lists (zeros max) length_zeros
  obtain ⟨total', htotal', hlength', hset'⟩ := exists_foldlM_or? lists' (zeros max) length_zeros
  have heq : total = total' := by
    refine (eq_iff_hasSameBits _ _).mpr ⟨?_, hlength.trans hlength'.symm⟩
    rw [hasSameBits_iff]
    intro i
    simp only [hset, hset', hmem]
  rw [htotal, htotal', heq]

/-! ## In registers -/

/-- A list is joined into another one, or that is too short and all registers stay as they are. -/
theorem step_join {registers : Registers max} {name source : String}
    (hlist : registers[name]? = some list) (hother : registers[source]? = some other) :
    registers.step (.join name source) = match list.or? other with
      | some joined => (.ok joined, registers.insert name joined)
      | none => (.error .shorterOperand, registers) := by
  have hread : registers.read name = .ok list := by rw [Registers.read, hlist]
  have hread' : registers.read source = .ok other := by rw [Registers.read, hother]
  have hevaluate : registers.evaluate (.join name source) = match list.or? other with
      | some joined => .ok (name, joined)
      | none => .error .shorterOperand := by
    rw [Registers.evaluate, hread, hread']
    rfl
  rw [Registers.step, hevaluate]
  cases list.or? other <;> rfl

/-! ## Lists as sets -/

/-- What bit lists are as sets of positions: joining is union, and comparing is equality. -/
structure SetLaws (max : Nat) : Prop where
  /-- A list takes in any that is not longer. -/
  join_none : ∀ list other : BitList max, list.or? other = none ↔ list.length < other.length
  join_some : ∀ list other joined : BitList max, list.or? other = some joined →
    joined.length = list.length ∧ ∀ i, joined.IsSet i ↔ list.IsSet i ∨ other.IsSet i
  /-- Where a list cannot be joined into another one, that one stays as it is. -/
  join_registers : ∀ (registers : Registers max) (name source : String) (list other : BitList max),
    registers[name]? = some list → registers[source]? = some other →
    (list.length < other.length →
      registers.step (.join name source) = (.error .shorterOperand, registers)) ∧
    ∀ joined, list.or? other = some joined →
      registers.step (.join name source) = (.ok joined, registers.insert name joined)
  longest : replicate? max false = some (zeros max)
  /-- The longest list takes in any lists, in any order and with any repetitions. -/
  join_all : ∀ lists : List (BitList max), ∃ total,
    lists.foldlM or? (zeros max) = some total ∧ total.length = max ∧
    (∀ i, total.IsSet i ↔ ∃ list ∈ lists, list.IsSet i) ∧
    ∀ lists' : List (BitList max), (∀ list, list ∈ lists' ↔ list ∈ lists) →
      lists'.foldlM or? (zeros max) = some total
  same_iff : ∀ a b : BitList max, a.hasSameBits b = true ↔ ∀ i, a.bitAt i = b.bitAt i
  same_iff_xor : ∀ a b : BitList max, a.hasSameBits b = true ↔
    List.zipWith xor a.padded b.padded = List.replicate max false
  same_equivalence : Equivalence fun a b : BitList max => a.hasSameBits b = true
  same_join : ∀ a a' b b' joined joined' : BitList max,
    a.hasSameBits a' = true → b.hasSameBits b' = true →
    a.or? b = some joined → a'.or? b' = some joined' → joined.hasSameBits joined' = true
  eq_iff : ∀ a b : BitList max, a = b ↔ a.hasSameBits b = true ∧ a.length = b.length

theorem setLaws (max : Nat) : SetLaws max where
  join_none := or?_eq_none_iff
  join_some _ _ _ := or?_eq_some
  join_registers := by
    intro registers name source list other hlist hother
    rw [step_join hlist hother]
    constructor
    · intro hshorter
      rw [(or?_eq_none_iff list other).mpr hshorter]
    · intro joined hjoined
      rw [hjoined]
  longest := by
    rw [replicate?, dif_pos (Nat.le_refl max)]
    rfl
  join_all := by
    intro lists
    obtain ⟨total, htotal, hlength, hset⟩ := exists_foldlM_or? lists (zeros max) length_zeros
    refine ⟨total, htotal, hlength, ?_, ?_⟩
    · intro i
      rw [hset, or_iff_right (not_isSet_zeros i)]
    · intro lists' hmem
      rw [foldlM_or?_congr hmem, htotal]
  same_iff := hasSameBits_iff_bitAt
  same_iff_xor := hasSameBits_iff_xor
  same_equivalence := hasSameBits_equivalence
  same_join _ _ _ _ _ _ := hasSameBits_or?
  eq_iff := eq_iff_hasSameBits

end AttestationIntake.BitList
