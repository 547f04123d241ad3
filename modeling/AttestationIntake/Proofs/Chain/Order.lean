import AttestationIntake.Proofs.Bits.Joining
import AttestationIntake.Proofs.Pool.ClosedForm

/-!
The orders that sorted sets of attestations rest on. Lists compare by their first difference, and
come before those that continue them. All orders are total and take two values for equal only if
they are the same, bit by bit and byte by byte. So a pool turns away as duplicates just what it has
been given before, and what it gives out does not depend on the order in which it was given that.
-/

namespace AttestationIntake

open Std (LawfulEqOrd TransOrd)

/-! ## Total orders -/

/-- Any two values compare one way, without cycles, and are equal in the order only if they are
the same. -/
structure TotallyOrdered (α : Type) [Ord α] : Prop where
  total : ∀ a b : α, (compare a b).isLE ∨ (compare b a).isLE
  swap : ∀ a b : α, compare b a = (compare a b).swap
  antisymm : ∀ a b : α, (compare a b).isLE → (compare b a).isLE → a = b
  trans : ∀ a b c : α, (compare a b).isLE → (compare b c).isLE → (compare a c).isLE
  eq_iff : ∀ a b : α, compare a b = .eq ↔ a = b

theorem totallyOrdered (α : Type) [Ord α] [TransOrd α] [LawfulEqOrd α] : TotallyOrdered α where
  total a b := by
    rw [Std.OrientedOrd.eq_swap (a := b)]
    cases compare a b <;> decide
  swap _ _ := Std.OrientedOrd.eq_swap
  antisymm _ _ hab hba := Std.compare_eq_iff_eq.mp (Std.OrientedCmp.isLE_antisymm hab hba)
  trans _ _ _ := TransOrd.isLE_trans
  eq_iff _ _ := Std.compare_eq_iff_eq

/-! ## Lists -/

section Lists

variable {α : Type} [Ord α]

/-- At the first place where the lists differ, `a` has the lesser item. -/
def DiffersBelow (a b : List α) : Prop :=
  ∃ common x y rest rest', a = common ++ x :: rest ∧ b = common ++ y :: rest' ∧ compare x y = .lt

theorem not_differsBelow_nil (a b : List α) (h : a = [] ∨ b = []) : ¬DiffersBelow a b := by
  rintro ⟨common, x, y, rest, rest', rfl, rfl, -⟩
  simp at h

variable [LawfulEqOrd α]

/-- Unequal first items decide; equal ones leave it to the rest. -/
theorem differsBelow_cons_iff (x y : α) (a b : List α) : DiffersBelow (x :: a) (y :: b) ↔
    compare x y = .lt ∨ compare x y = .eq ∧ DiffersBelow a b := by
  constructor
  · rintro ⟨common, z, z', rest, rest', ha, hb, hlt⟩
    cases common with
    | nil =>
      cases ha
      cases hb
      exact .inl hlt
    | cons c common =>
      cases ha
      cases hb
      exact .inr ⟨Std.compare_eq_iff_eq.mpr rfl, common, z, z', rest, rest', rfl, rfl, hlt⟩
  · rintro (hlt | ⟨heq, common, z, z', rest, rest', rfl, rfl, hlt⟩)
    · exact ⟨[], x, y, a, b, rfl, rfl, hlt⟩
    · cases Std.compare_eq_iff_eq.mp heq
      exact ⟨x :: common, z, z', rest, rest', rfl, rfl, hlt⟩

/-- Lists compare by their first difference. Where there is none, the shorter one comes first. -/
theorem compare_list_eq_lt_iff (a b : List α) :
    compare a b = .lt ↔ DiffersBelow a b ∨ a <+: b ∧ a.length < b.length := by
  induction a generalizing b with
  | nil =>
    have hdiffers := not_differsBelow_nil [] b (.inl rfl)
    cases b with
    | nil => simp [hdiffers]
    | cons y b => simp [hdiffers]
  | cons x a ih =>
    cases b with
    | nil =>
      have hdiffers := not_differsBelow_nil (x :: a) [] (.inr rfl)
      simp [hdiffers]
    | cons y b =>
      rw [List.compare_cons_cons, Ordering.then_eq_lt, ih, differsBelow_cons_iff,
        List.cons_prefix_cons, List.length_cons, List.length_cons, Nat.add_lt_add_iff_right,
        Std.compare_eq_iff_eq]
      tauto

end Lists

/-! ## Bit lists and byte strings -/

namespace BitList

variable {max : Nat}

/-- Whether at the first difference `b` is set and `a` is not, or `b` continues `a`. -/
theorem compare_eq_lt_iff (a b : BitList max) : compare a b = .lt ↔
    (∃ common rest rest', a.bits = common ++ false :: rest ∧ b.bits = common ++ true :: rest') ∨
      a.bits <+: b.bits ∧ a.length < b.length := by
  have hbit : ∀ x y : Bool, compare x y = .lt ↔ x = false ∧ y = true := by decide
  rw [show compare a b = compare a.bits b.bits from rfl, compare_list_eq_lt_iff]
  apply or_congr_left
  constructor
  · rintro ⟨common, x, y, rest, rest', ha, hb, hlt⟩
    obtain ⟨rfl, rfl⟩ := (hbit x y).mp hlt
    exact ⟨common, rest, rest', ha, hb⟩
  · rintro ⟨common, rest, rest', ha, hb⟩
    exact ⟨common, false, true, rest, rest', ha, hb, rfl⟩

theorem compare_eq_eq_iff (a b : BitList max) :
    compare a b = .eq ↔ a.length = b.length ∧ ∀ i, a.bitAt i = b.bitAt i := by
  rw [Std.compare_eq_iff_eq, eq_iff_hasSameBits, hasSameBits_iff_bitAt, and_comm]

end BitList

/-- Byte strings of one length never continue each other. -/
theorem FixedBytes.compare_eq_lt_iff {n : Nat} (a b : FixedBytes n) :
    compare a b = .lt ↔ DiffersBelow a.bytes b.bytes := by
  rw [show compare a b = compare a.bytes b.bytes from rfl, compare_list_eq_lt_iff, a.length_eq,
    b.length_eq]
  simp

/-! ## Attestations -/

variable {p : Preset}

theorem Attestation.compare_eq (a b : Attestation p) : compare a b =
    ((compare a.aggregationBits b.aggregationBits).then <|
      (compare a.data.slot b.data.slot).then <|
      (compare a.data.index b.data.index).then <|
      (compare a.data.beaconBlockRoot b.data.beaconBlockRoot).then <|
      (compare a.data.source.epoch b.data.source.epoch).then <|
      (compare a.data.source.root b.data.source.root).then <|
      (compare a.data.target.epoch b.data.target.epoch).then <|
      (compare a.data.target.root b.data.target.root).then <|
      compare a.signature b.signature) := by
  have hcheckpoint : ∀ c d : Checkpoint,
      compare c d = (compare c.epoch d.epoch).then (compare c.root d.root) := fun _ _ => rfl
  have hdata : ∀ d e : AttestationData, compare d e =
      ((compare d.slot e.slot).then <| (compare d.index e.index).then <|
        (compare d.beaconBlockRoot e.beaconBlockRoot).then <|
        (compare d.source e.source).then (compare d.target e.target)) := fun _ _ => rfl
  rw [show compare a b = (compare a.aggregationBits b.aggregationBits).then
    ((compare a.data b.data).then (compare a.signature b.signature)) from rfl, hdata, hcheckpoint,
    hcheckpoint]
  simp only [Ordering.then_assoc]

namespace Pool

/-- What a pool has been given before is a duplicate as long as it is retained, and nothing else
is. -/
theorem add_run_eq_duplicate_iff (historic : UInt64) (start : Epoch) (events : List (PoolEvent p))
    (a : Attestation p) : (((empty historic start).run events).add a).1 = .duplicate ↔
      ((empty historic start).run events).threshold ≤ a.data.target.epoch ∧
        .submit a ∈ events := by
  have hgiven := mem_targeting_run historic start events a.data.target.epoch a
  generalize (empty historic start).run events = pool at hgiven ⊢
  rcases pool.add_cases a with ⟨hstale, hadd⟩ | ⟨hretained, hmem, hadd⟩ |
    ⟨hretained, hmem, hadd⟩ <;> rw [hadd]
  · have hnot := UInt64.not_le.mpr hstale
    simp [hnot]
  · rw [hgiven] at hmem
    simp [hmem]
  · rw [hgiven] at hmem
    simp_all

/-- What is given out for an epoch depends on what was added, but not on its order. -/
theorem targeting_run_submits_congr (pool : Pool p) {list list' : List (Attestation p)}
    (h : ∀ a, a ∈ list ↔ a ∈ list') (epoch : Epoch) :
    (pool.run (list.map .submit)).targeting epoch =
      (pool.run (list'.map .submit)).targeting epoch := by
  have hmem : ∀ a, a ∈ (pool.run (list.map .submit)).targeting epoch ↔
      a ∈ (pool.run (list'.map .submit)).targeting epoch := by
    intro a
    rw [mem_targeting_run_submits, mem_targeting_run_submits, h]
  simp only [targeting, Std.ExtTreeSet.mem_toList] at hmem
  rw [targeting, targeting, Std.ExtTreeSet.ext_mem hmem]

end Pool

/-! ## Lawful orders -/

/-- How bit lists compare. -/
structure BitList.OrderedByBits (max : Nat) : Prop where
  total : TotallyOrdered (BitList max)
  /-- Unset comes before set, and a list before those that continue it. -/
  lt_iff : ∀ a b : BitList max, compare a b = .lt ↔
    (∃ common rest rest', a.bits = common ++ false :: rest ∧ b.bits = common ++ true :: rest') ∨
      a.bits <+: b.bits ∧ a.length < b.length
  eq_iff : ∀ a b : BitList max,
    compare a b = .eq ↔ a.length = b.length ∧ ∀ i, a.bitAt i = b.bitAt i

/-- How attestations compare: by their bits, then by their data, field by field, then by their
signatures. -/
structure Attestation.OrderedByFields (p : Preset) : Prop where
  total : TotallyOrdered (Attestation p)
  fields : ∀ a b : Attestation p, compare a b =
    ((compare a.aggregationBits b.aggregationBits).then <|
      (compare a.data.slot b.data.slot).then <|
      (compare a.data.index b.data.index).then <|
      (compare a.data.beaconBlockRoot b.data.beaconBlockRoot).then <|
      (compare a.data.source.epoch b.data.source.epoch).then <|
      (compare a.data.source.root b.data.source.root).then <|
      (compare a.data.target.epoch b.data.target.epoch).then <|
      (compare a.data.target.root b.data.target.root).then <|
      compare a.signature b.signature)
  /-- Roots and signatures compare byte by byte. -/
  bytes : ∀ (n : Nat) (a b : FixedBytes n), compare a b = .lt ↔ DiffersBelow a.bytes b.bytes

/-- How a pool keeps each attestation once. -/
structure Pool.Deduplicates (p : Preset) : Prop where
  /-- Of those that are retained, the ones that were given before are turned away, and no others. -/
  duplicate_iff : ∀ (historic : UInt64) (start : Epoch) (events : List (PoolEvent p))
    (a : Attestation p), (((empty historic start).run events).add a).1 = .duplicate ↔
      ((empty historic start).run events).threshold ≤ a.data.target.epoch ∧
        .submit a ∈ events
  ascending : ∀ (pool : Pool p) (epoch : Epoch),
    (pool.targeting epoch).Pairwise fun a b => compare a b = .lt
  targeting_congr : ∀ (pool : Pool p) (list list' : List (Attestation p)),
    (∀ a, a ∈ list ↔ a ∈ list') → ∀ epoch,
      (pool.run (list.map .submit)).targeting epoch = (pool.run (list'.map .submit)).targeting epoch

/-- The orders are lawful, and so sorted sets of attestations hold each of them once. -/
theorem orders_lawful : (∀ max, BitList.OrderedByBits max) ∧
    ∀ p, Attestation.OrderedByFields p ∧ Pool.Deduplicates p := by
  constructor
  · intro max
    exact ⟨totallyOrdered (BitList max), BitList.compare_eq_lt_iff, BitList.compare_eq_eq_iff⟩
  · intro p
    constructor
    · exact ⟨totallyOrdered (Attestation p), Attestation.compare_eq,
        fun _ => FixedBytes.compare_eq_lt_iff⟩
    · exact ⟨Pool.add_run_eq_duplicate_iff, Pool.targeting_ascending,
        fun pool _ _ h => pool.targeting_run_submits_congr h⟩

/-- Bits that are unset at the end of a list count. -/
example : compare (⟨[true], by decide⟩ : BitList 4) ⟨[true, false], by decide⟩ = .lt := by decide

end AttestationIntake
