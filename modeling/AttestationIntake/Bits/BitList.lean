/-!
Bit lists, one bit for each member of a committee, with a bound on their length. Lists of different
lengths are never equal, but `BitList.hasSameBits` reads positions past the end of a list as unset,
and a longer list can take in the bits of a shorter one.
-/

namespace AttestationIntake

/-- At most `max` bits, the bit of the first member first. -/
structure BitList (max : Nat) where
  bits : List Bool
  length_le : bits.length ≤ max
deriving DecidableEq

namespace BitList

variable {max : Nat}

def length (list : BitList max) : Nat := list.bits.length

/-! ## Making lists -/

def empty : BitList max := ⟨[], by simp⟩

instance : Inhabited (BitList max) := ⟨empty⟩

/-- The given bits, unless there are more than `max`. -/
def ofBits? (bits : List Bool) : Option (BitList max) :=
  if h : bits.length ≤ max then some ⟨bits, h⟩ else none

/-- `length` times the same bit, unless `length` is above `max`. -/
def replicate? (length : Nat) (value : Bool) : Option (BitList max) :=
  if h : length ≤ max then some ⟨List.replicate length value, by simpa using h⟩ else none

/-- The longest list, all of whose bits are unset. -/
def zeros (max : Nat) : BitList max := ⟨List.replicate max false, by simp⟩

/-! ## Changing lists -/

/-- Sets one bit, unless `index` is past the end. -/
def set? (list : BitList max) (index : Nat) (value : Bool) : Option (BitList max) :=
  if index < list.length then some ⟨list.bits.set index value, by simp [list.length_le]⟩ else none

/-- Joins the bits of `other` into `bits`, as far as `bits` goes. -/
def joinBits : List Bool → List Bool → List Bool
  | bit :: bits, other :: others => (bit || other) :: joinBits bits others
  | bits, [] => bits
  | [], _ => []

theorem length_joinBits (bits others : List Bool) :
    (joinBits bits others).length = bits.length := by
  fun_induction joinBits bits others <;> simp_all

/-- Sets the bits that are set in `other`. A list cannot take in a longer one. -/
def or? (list other : BitList max) : Option (BitList max) :=
  if other.length ≤ list.length then
    some ⟨joinBits list.bits other.bits, by rw [length_joinBits]; exact list.length_le⟩
  else none

/-! ## Reading lists -/

/-- The positions of the set bits of `bits`, the first of which is at `start`. -/
def onesFrom (start : Nat) : List Bool → List Nat
  | [] => []
  | true :: bits => start :: onesFrom (start + 1) bits
  | false :: bits => onesFrom (start + 1) bits

/-- The positions of the set bits, in ascending order. -/
def ones (list : BitList max) : List Nat := onesFrom 0 list.bits

def any (list : BitList max) : Bool := list.bits.any id

/-- Whether the same positions are set, whatever the lengths. -/
def hasSameBits (a b : BitList max) : Bool := a.ones == b.ones

/-- From the first bit on, unset before set; a list comes before those that continue it. -/
instance : Ord (BitList max) := ⟨compareOn (·.bits)⟩

instance : Std.TransOrd (BitList max) := inferInstanceAs (Std.TransCmp (compareOn _))

instance : Std.LawfulEqOrd (BitList max) where
  eq_of_compare {a b} h := by
    cases a; cases b
    simp only [BitList.mk.injEq]
    exact Std.LawfulEqOrd.eq_of_compare h

end BitList

end AttestationIntake
