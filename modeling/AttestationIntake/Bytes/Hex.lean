/-!
Hexadecimal text. Writing gives two lower-case digits for each byte. Reading works on the bytes of
the text, so that the positions it reports count bytes, and comes in two forms: `Hex.decode` wants
an even number of digits and nothing else, `Hex.decodeSpaced` passes over blanks.
-/

namespace AttestationIntake

/-- The bytes of a text in UTF-8. -/
def utf8Bytes (text : String) : List UInt8 :=
  text.toList.flatMap String.utf8EncodeChar

namespace Hex

/-- Why a text is not hexadecimal. A position counts bytes from the start of the text. -/
inductive Error where
  | oddLength
  | invalidDigit (byte : UInt8) (position : Nat)
deriving DecidableEq, Repr

/-! ## Writing -/

/-- The lower-case digit for `n`, which is below sixteen. -/
def digit (n : Nat) : Char :=
  if n < 10 then Char.ofNat ('0'.toNat + n) else Char.ofNat ('a'.toNat + (n - 10))

/-- The two digits of a byte, the high half first. -/
def pair (byte : UInt8) : List Char :=
  [digit (byte.toNat / 16), digit (byte.toNat % 16)]

def digits (bytes : List UInt8) : List Char :=
  bytes.flatMap pair

/-- Lower-case digits behind `0x`. -/
def encode (bytes : List UInt8) : String :=
  String.ofList ('0' :: 'x' :: digits bytes)

/-! ## Reading -/

/-- The value of a digit of either case. -/
def digitValue? (byte : UInt8) : Option UInt8 :=
  if 48 ≤ byte ∧ byte ≤ 57 then some (byte - 48)
  else if 97 ≤ byte ∧ byte ≤ 102 then some (byte - 87)
  else if 65 ≤ byte ∧ byte ≤ 70 then some (byte - 55)
  else none

/-- Drops `0x` from the front, once. -/
def stripMarker : List UInt8 → List UInt8
  | 48 :: 120 :: rest => rest
  | text => text

def readDigit (position : Nat) (byte : UInt8) : Except Error UInt8 :=
  match digitValue? byte with
  | some value => .ok value
  | none => .error (.invalidDigit byte position)

/-- Reads pairs of digits from `position` on and reports the first byte that is not a digit. -/
def decodePairs (position : Nat) : List UInt8 → Except Error (List UInt8)
  | high :: low :: rest => do
      let h ← readDigit position high
      let l ← readDigit (position + 1) low
      let bytes ← decodePairs (position + 2) rest
      return (h * 16 + l) :: bytes
  | _ => .ok []

/-- Reads an even number of digits. An odd number is reported before any wrong digit. -/
def decode (text : List UInt8) : Except Error (List UInt8) :=
  if text.length % 2 = 1 then .error .oddLength else decodePairs 0 text

/-- Space, tab, line feed and carriage return. -/
def isBlank (byte : UInt8) : Bool :=
  byte == 32 || byte == 9 || byte == 10 || byte == 13

/-- The values of the digits from `position` on, blanks left out. -/
def readDigits (position : Nat) : List UInt8 → Except Error (List UInt8)
  | [] => .ok []
  | byte :: rest =>
      if isBlank byte then readDigits (position + 1) rest
      else do
        let value ← readDigit position byte
        let values ← readDigits (position + 1) rest
        return value :: values

/-- Joins digit values two by two; a single one left over is dropped. -/
def joinPairs : List UInt8 → List UInt8
  | high :: low :: rest => (high * 16 + low) :: joinPairs rest
  | _ => []

/-- Reads digits between blanks. `start` is the position of the first byte of `text`. -/
def decodeSpaced (start : Nat) (text : List UInt8) : Except Error (List UInt8) :=
  (readDigits start text).map joinPairs

end Hex

end AttestationIntake
