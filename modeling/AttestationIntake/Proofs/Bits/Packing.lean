import AttestationIntake.Bits.Delimited
import Mathlib.Algebra.Group.Nat.Defs

/-!
Bits in bytes. A byte and its eight bits say the same, so bytes can be unpacked and packed again.
What is left over at the end goes into a byte of its own: a set bit that ends it makes its value
tell how many bits there are.
-/

namespace AttestationIntake

/-! ## Single bytes -/

theorem testBit_bitsToNat (bits : List Bool) (i : Nat) :
    (bitsToNat bits).testBit i = bits[i]?.getD false := by
  induction bits generalizing i with
  | nil => simp [bitsToNat]
  | cons bit bits ih =>
    rw [bitsToNat, Nat.add_comm]
    cases i with
    | zero => cases bit <;> simp [Nat.testBit_zero, Nat.add_mod]
    | succ i =>
      have hhalf : (2 * bitsToNat bits + bit.toNat) / 2 = bitsToNat bits := by
        have := bit.toNat_lt
        omega
      rw [Nat.testBit_succ, hhalf, ih, List.getElem?_cons_succ]

theorem bitsToNat_lt (bits : List Bool) : bitsToNat bits < 2 ^ bits.length := by
  induction bits with
  | nil => simp [bitsToNat]
  | cons bit bits ih =>
    have := bit.toNat_lt
    rw [bitsToNat, List.length_cons, Nat.pow_succ]
    omega

theorem toNat_toUInt8_bitsToNat {bits : List Bool} (h : bits.length ≤ 8) :
    (bitsToNat bits).toUInt8.toNat = bitsToNat bits := by
  have hlt := Nat.lt_of_lt_of_le (bitsToNat_lt bits) (Nat.pow_le_pow_right Nat.two_pos h)
  exact Nat.mod_eq_of_lt hlt

@[simp]
theorem length_byteBits (byte : UInt8) : (byteBits byte).length = 8 := by
  simp [byteBits]

theorem getElem?_byteBits (byte : UInt8) {i : Nat} (h : i < 8) :
    (byteBits byte)[i]? = some (byte.toNat.testBit i) := by
  simp [byteBits, h]

theorem testBit_byte_of_ge (byte : UInt8) {i : Nat} (h : 8 ≤ i) : byte.toNat.testBit i = false :=
  Nat.testBit_lt_two_pow
    (Nat.lt_of_lt_of_le byte.toNat_lt (Nat.pow_le_pow_right Nat.two_pos h))

theorem byteBits_bitsToNat {bits : List Bool} (h : bits.length ≤ 8) :
    byteBits (bitsToNat bits).toUInt8 = bits ++ List.replicate (8 - bits.length) false := by
  apply List.ext_getElem?
  intro i
  by_cases hi : i < 8
  · rw [getElem?_byteBits _ hi, toNat_toUInt8_bitsToNat h, testBit_bitsToNat]
    by_cases hlength : i < bits.length
    · rw [List.getElem?_append_left hlength, List.getElem?_eq_getElem hlength, Option.getD_some]
    · rw [List.getElem?_append_right (Nat.le_of_not_lt hlength),
        List.getElem?_replicate_of_lt (by omega),
        List.getElem?_eq_none (Nat.le_of_not_lt hlength), Option.getD_none]
  · rw [List.getElem?_eq_none (by simp; omega), List.getElem?_eq_none (by simp; omega)]

theorem bitsToNat_byteBits (byte : UInt8) : (bitsToNat (byteBits byte)).toUInt8 = byte := by
  rw [← UInt8.toNat_inj, toNat_toUInt8_bitsToNat (Nat.le_of_eq (length_byteBits byte))]
  apply Nat.eq_of_testBit_eq
  intro i
  rw [testBit_bitsToNat]
  by_cases hi : i < 8
  · rw [getElem?_byteBits byte hi, Option.getD_some]
  · have hpast := Nat.le_of_not_lt hi
    rw [List.getElem?_eq_none (by simpa using hpast), testBit_byte_of_ge byte hpast]
    rfl

/-! ## The last byte -/

/-- The highest set bit of a byte is in this place. -/
def HighestBit (byte : UInt8) (place : Nat) : Prop :=
  byte.toNat.testBit place = true ∧ ∀ higher, place < higher → byte.toNat.testBit higher = false

theorem highestBit_log2 {byte : UInt8} (h : byte ≠ 0) : HighestBit byte byte.toNat.log2 := by
  have hne : byte.toNat ≠ 0 := fun hzero => h (UInt8.toNat_inj.mp hzero)
  constructor
  · exact Nat.testBit_log2 hne
  · intro higher hlt
    apply Nat.testBit_lt_two_pow
    exact (Nat.log2_lt hne).mp hlt

namespace HighestBit

variable {byte : UInt8} {place : Nat}

theorem lt_eight (h : HighestBit byte place) : place < 8 := by
  apply Nat.lt_of_not_le
  intro hge
  have hset := h.1
  rw [testBit_byte_of_ge byte hge] at hset
  cases hset

theorem ne_zero (h : HighestBit byte place) : byte ≠ 0 := by
  rintro rfl
  have hset := h.1
  rw [UInt8.toNat_zero, Nat.zero_testBit] at hset
  cases hset

theorem unique {place' : Nat} (h : HighestBit byte place) (h' : HighestBit byte place') :
    place = place' := by
  rcases Nat.lt_trichotomy place place' with hlt | heq | hlt
  · cases (h.2 place' hlt).symm.trans h'.1
  · exact heq
  · cases (h'.2 place hlt).symm.trans h.1

theorem log2_eq (h : HighestBit byte place) : byte.toNat.log2 = place :=
  (highestBit_log2 h.ne_zero).unique h

/-- A set bit behind the bits below the highest one makes up the byte again. -/
theorem bitsToNat_take (h : HighestBit byte place) :
    (bitsToNat ((byteBits byte).take place ++ [true])).toUInt8 = byte := by
  have hlength : ((byteBits byte).take place).length = place := by
    rw [List.length_take, length_byteBits]
    exact Nat.min_eq_left (Nat.le_of_lt h.lt_eight)
  have hfits : ((byteBits byte).take place ++ [true]).length ≤ 8 := by
    rw [List.length_append, hlength]
    exact h.lt_eight
  rw [← UInt8.toNat_inj, toNat_toUInt8_bitsToNat hfits]
  apply Nat.eq_of_testBit_eq
  intro i
  rw [testBit_bitsToNat]
  rcases Nat.lt_trichotomy i place with hlt | rfl | hgt
  · rw [List.getElem?_append_left (by rwa [hlength]), List.getElem?_take_of_lt hlt,
      getElem?_byteBits byte (Nat.lt_trans hlt h.lt_eight), Option.getD_some]
  · rw [List.getElem?_append_right (Nat.le_of_eq hlength), hlength, Nat.sub_self, h.1]
    rfl
  · rw [List.getElem?_eq_none (by rw [List.length_append, hlength]; exact hgt), h.2 i hgt]
    rfl

end HighestBit

/-- And the value of such bits has the set bit that ends them for its highest. -/
theorem highestBit_bitsToNat {bits : List Bool} (h : bits.length < 8) :
    HighestBit (bitsToNat (bits ++ [true])).toUInt8 bits.length := by
  have hlength : (bits ++ [true]).length ≤ 8 := by
    rw [List.length_append]
    exact h
  rw [HighestBit, toNat_toUInt8_bitsToNat hlength]
  constructor
  · rw [testBit_bitsToNat, List.getElem?_append_right (Nat.le_refl _), Nat.sub_self]
    rfl
  · intro higher hlt
    rw [testBit_bitsToNat, List.getElem?_eq_none (by rw [List.length_append]; exact hlt)]
    rfl

/-! ## Many bytes -/

@[simp]
theorem length_unpackBits (bytes : List UInt8) : (unpackBits bytes).length = 8 * bytes.length := by
  induction bytes with
  | nil => rfl
  | cons byte bytes ih =>
    rw [unpackBits, List.flatMap_cons, List.length_append, length_byteBits, ← unpackBits, ih,
      List.length_cons]
    omega

theorem getElem?_unpackBits (bytes : List UInt8) (i : Nat) :
    (unpackBits bytes)[i]? = bytes[i / 8]?.map (·.toNat.testBit (i % 8)) := by
  induction bytes generalizing i with
  | nil => simp [unpackBits]
  | cons byte bytes ih =>
    rw [unpackBits, List.flatMap_cons, ← unpackBits]
    by_cases hi : i < 8
    · rw [List.getElem?_append_left (by simpa using hi), getElem?_byteBits byte hi,
        Nat.div_eq_of_lt hi, Nat.mod_eq_of_lt hi]
      rfl
    -- Past the first byte the bit is one of the rest, in the same place of a byte.
    · have hdiv : i / 8 = (i - 8) / 8 + 1 := by omega
      have hmod : i % 8 = (i - 8) % 8 := by omega
      rw [List.getElem?_append_right (by simpa using hi), length_byteBits, ih, hdiv, hmod,
        List.getElem?_cons_succ]

theorem packBits_of_le {bits : List Bool} (hne : bits ≠ []) (h : bits.length ≤ 8) :
    packBits bits = [(bitsToNat bits).toUInt8] := by
  rw [packBits, if_neg hne, List.take_of_length_le h, List.drop_of_length_le h, packBits,
    if_pos rfl]

theorem packBits_append {chunk : List Bool} (h : chunk.length = 8) (bits : List Bool) :
    packBits (chunk ++ bits) = (bitsToNat chunk).toUInt8 :: packBits bits := by
  have hne : chunk ++ bits ≠ [] := by
    rintro hempty
    rw [(List.append_eq_nil_iff.mp hempty).1] at h
    cases h
  rw [packBits, if_neg hne, List.take_left' h, List.drop_left' h]

theorem packBits_unpackBits_append (bytes : List UInt8) (bits : List Bool) :
    packBits (unpackBits bytes ++ bits) = bytes ++ packBits bits := by
  induction bytes with
  | nil => rfl
  | cons byte bytes ih =>
    rw [unpackBits, List.flatMap_cons, ← unpackBits, List.append_assoc,
      packBits_append (length_byteBits byte), bitsToNat_byteBits, ih]
    rfl

/-! ## Delimited bits -/

/-- The bits in front of the highest set bit of the last byte. -/
def bitsBefore (front : List UInt8) (last : UInt8) : List Bool :=
  unpackBits front ++ (byteBits last).take last.toNat.log2

theorem packBits_bitsBefore (front : List UInt8) {last : UInt8} (h : last ≠ 0) :
    packBits (bitsBefore front last ++ [true]) = front ++ [last] := by
  have hhighest := highestBit_log2 h
  rw [bitsBefore, List.append_assoc, packBits_unpackBits_append, packBits_of_le (by simp),
    hhighest.bitsToNat_take]
  rw [List.length_append, List.length_take, length_byteBits]
  have := hhighest.lt_eight
  simp only [List.length_cons, List.length_nil]
  omega

/-- Every list of bits is in front of the set bit that delimits it. -/
theorem exists_eq_bitsBefore (bits : List Bool) : ∃ front last, last ≠ 0 ∧
    packBits (bits ++ [true]) = front ++ [last] ∧ bits = bitsBefore front last := by
  -- Eight bits at a time, as `packBits` goes; fewer share the last byte with the delimiter.
  by_cases hshort : bits.length < 8
  · have hhighest := highestBit_bitsToNat hshort
    have hlength : (bits ++ [true]).length ≤ 8 := by
      rw [List.length_append]
      exact hshort
    refine ⟨[], _, hhighest.ne_zero, packBits_of_le (by simp) hlength, ?_⟩
    rw [bitsBefore, hhighest.log2_eq, byteBits_bitsToNat hlength, List.append_assoc,
      List.take_left]
    rfl
  · obtain ⟨chunk, rest, hbits, hchunk⟩ : ∃ chunk rest, bits = chunk ++ rest ∧ chunk.length = 8 :=
      ⟨bits.take 8, bits.drop 8, (List.take_append_drop 8 bits).symm, by
        rw [List.length_take]
        omega⟩
    obtain ⟨front, last, hne, hpack, hrest⟩ := exists_eq_bitsBefore rest
    refine ⟨(bitsToNat chunk).toUInt8 :: front, last, hne, ?_, ?_⟩
    · rw [hbits, List.append_assoc, packBits_append hchunk, hpack]
      rfl
    · rw [hbits, hrest, bitsBefore, bitsBefore, unpackBits, unpackBits, List.flatMap_cons,
        byteBits_bitsToNat (Nat.le_of_eq hchunk), hchunk, Nat.sub_self, List.replicate_zero,
        List.append_nil, List.append_assoc]
termination_by bits.length
decreasing_by
  rw [hbits, List.length_append, hchunk]
  omega

end AttestationIntake
