import AttestationIntake.Bits.BitList
import AttestationIntake.Bytes.Hex

/-!
The byte form of a bit list. One set bit is put behind the last bit, and the whole is cut into
bytes, the first bit of each in its lowest place. The highest set bit of the last byte therefore
marks the end of the list, and every list has one form.
-/

namespace AttestationIntake

/-- Bits, the first in the lowest place, as a number. -/
def bitsToNat : List Bool → Nat
  | [] => 0
  | bit :: bits => bit.toNat + 2 * bitsToNat bits

/-- The eight bits of a byte, the lowest first. -/
def byteBits (byte : UInt8) : List Bool :=
  (List.range 8).map byte.toNat.testBit

/-- Cuts bits into bytes. The last byte is filled up with unset bits. -/
def packBits (bits : List Bool) : List UInt8 :=
  if bits = [] then []
  else (bitsToNat (bits.take 8)).toUInt8 :: packBits (bits.drop 8)
termination_by bits.length
decreasing_by
  have := List.length_pos_iff.mpr ‹_›
  simp; omega

def unpackBits (bytes : List UInt8) : List Bool := bytes.flatMap byteBits

namespace BitList

variable {max : Nat}

/-- Why something is not the form of a bit list. -/
inductive Error where
  | noBytes
  | noDelimiter
  | tooLong (maximum actual : Nat)
  | notHex (error : Hex.Error)
deriving DecidableEq, Repr

/-- The bits with the delimiting bit behind them, in bytes. -/
def toBytes (list : BitList max) : List UInt8 := packBits (list.bits ++ [true])

/-- Like `ofBits?`, but says what was too long. -/
def ofBits (bits : List Bool) : Except Error (BitList max) :=
  match ofBits? bits with
  | some list => .ok list
  | none => .error (.tooLong max bits.length)

/-- Reads the byte form. The highest set bit of the last byte ends the list. -/
def ofBytes (bytes : List UInt8) : Except Error (BitList max) :=
  match bytes.getLast? with
  | none => .error .noBytes
  | some 0 => .error .noDelimiter
  | some last => ofBits ((unpackBits bytes).take (8 * (bytes.length - 1) + last.toNat.log2))

/-- The byte form as lower-case hexadecimal digits behind `0x`. -/
def toHex (list : BitList max) : String := Hex.encode list.toBytes

/-- Reads hexadecimal digits of either case, with or without `0x`. -/
def ofHex (text : String) : Except Error (BitList max) :=
  match Hex.decode (Hex.stripMarker (utf8Bytes text)) with
  | .ok bytes => ofBytes bytes
  | .error e => .error (.notHex e)

/-- The bits themselves behind `0b`. -/
def binary (list : BitList max) : String :=
  "0b" ++ String.ofList (list.bits.map fun bit => if bit then '1' else '0')

end BitList

end AttestationIntake
