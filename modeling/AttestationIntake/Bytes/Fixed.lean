import AttestationIntake.Bytes.Hex

/-!
Byte strings of a fixed length. Block roots have 32 bytes and signatures 96; both are opaque here
and only compared, byte by byte from the first, and carried along.
-/

namespace AttestationIntake

/-- A string of exactly `n` bytes. -/
structure FixedBytes (n : Nat) where
  bytes : List UInt8
  length_eq : bytes.length = n
deriving DecidableEq

namespace FixedBytes

variable {n : Nat}

instance : Ord (FixedBytes n) := ⟨compareOn (·.bytes)⟩

instance : Std.TransOrd (FixedBytes n) := inferInstanceAs (Std.TransCmp (compareOn _))

instance : Std.LawfulEqOrd (FixedBytes n) where
  eq_of_compare {a b} h := by
    cases a; cases b
    simp only [FixedBytes.mk.injEq]
    exact Std.LawfulEqOrd.eq_of_compare h

/-- The first `n` of the given bytes, followed by zeros where there are fewer. -/
def ofBytes (n : Nat) (bytes : List UInt8) : FixedBytes n :=
  ⟨(bytes ++ List.replicate n 0).take n, by simp⟩

def zero : FixedBytes n := ⟨List.replicate n 0, by simp⟩

instance : Inhabited (FixedBytes n) := ⟨zero⟩

def isZero (b : FixedBytes n) : Bool := b = zero

/-- The big-endian form of `value`, whose low bytes come last. -/
def ofNat (n value : Nat) : FixedBytes n :=
  ⟨(List.range n).map fun i => (value >>> (8 * (n - 1 - i))).toUInt8, by simp⟩

/-- The number of which the bytes are the big-endian form. -/
def toNat (b : FixedBytes n) : Nat :=
  b.bytes.foldl (fun value byte => value * 256 + byte.toNat) 0

/-! ## Text -/

/-- All bytes as lower-case digits behind `0x`. -/
def hex (b : FixedBytes n) : String := Hex.encode b.bytes

/-- All bytes as upper-case digits. -/
def upperHex (b : FixedBytes n) : String :=
  String.ofList ((Hex.digits b.bytes).map Char.toUpper)

/-- The first two and the last two bytes. -/
def short (b : FixedBytes n) : String :=
  Hex.encode (b.bytes.take 2) ++ "…" ++ String.ofList (Hex.digits (b.bytes.drop (n - 2)))

/-- Why a text is not a byte string of the wanted length. -/
inductive Error where
  | length (actual : Nat)
  | notHex (error : Hex.Error)
deriving DecidableEq, Repr

/-- Reads hexadecimal text with or without `0x`. Its length has to fit exactly, blanks included;
where blanks took the place of digits the last bytes stay zero. -/
def ofHex (n : Nat) (text : String) : Except Error (FixedBytes n) :=
  let all := utf8Bytes text
  let digits := Hex.stripMarker all
  if digits.length ≠ 2 * n then .error (.length digits.length)
  else match Hex.decodeSpaced (all.length - digits.length) digits with
    | .ok bytes => .ok (ofBytes n bytes)
    | .error e => .error (.notHex e)

end FixedBytes

/-- The root by which a block is known. -/
abbrev Root := FixedBytes 32

instance : Std.TransOrd Root := inferInstance

abbrev Signature := FixedBytes 96

/-- The compressed point at infinity, which signs nothing. -/
def Signature.infinity : Signature := FixedBytes.ofBytes 96 [0xc0]

end AttestationIntake
