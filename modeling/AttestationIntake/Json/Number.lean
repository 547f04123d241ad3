import AttestationIntake.Json.Value

/-!
Numbers in JSON text. A whole number that fits 64 bits stays one. Everything else becomes a
floating-point number: as many digits as fit a word are kept, the rest only count as places, and the
word is multiplied or divided by one power of ten.
-/

namespace AttestationIntake.Json

/-- The digits read so far: a word, and the power of ten that it stands before. -/
structure Significand where
  value : Nat
  exponent : Int
  /-- Whether a digit no longer fit the word. -/
  full : Bool

def Significand.fits (s : Significand) (digit : Nat) : Bool :=
  s.value * 10 + digit < UInt64.size

/-- A digit before the point. The first that does not fit ends the word; from there on each digit
is one more place. -/
def Significand.whole (s : Significand) (digit : Nat) : Significand :=
  if !s.full && s.fits digit then { s with value := s.value * 10 + digit }
  else { s with exponent := s.exponent + 1, full := true }

/-- A digit behind the point. -/
def Significand.fraction (s : Significand) (digit : Nat) : Significand :=
  if !s.full && s.fits digit then
    { s with value := s.value * 10 + digit, exponent := s.exponent - 1 }
  else { s with full := true }

/-- `value · 10 ^ exponent`, rounded once for the value and once for the power. -/
def scaleByTen (value : Nat) (exponent : Int) : Float :=
  let x := value.toUInt64.toFloat
  if value = 0 then x
  else if exponent ≥ 0 then x * Float.ofScientific 1 false exponent.toNat
  else
    let places := (-exponent).toNat
    if places ≤ 308 then x / Float.ofScientific 1 false places
    else x / Float.ofScientific 1 false 308 / Float.ofScientific 1 false (min (places - 308) 308)

def digitsOf (chars : List Char) : List Nat := chars.map fun c => c.toNat - '0'.toNat

/-- The exponent behind `e`, with its sign. -/
def exponentOf (chars : List Char) : Int :=
  let magnitude (cs : List Char) : Nat := min 99999 (Nat.ofDigitChars 10 cs 0)
  match chars with
  | '-' :: rest => -(magnitude rest)
  | '+' :: rest => magnitude rest
  | rest => magnitude rest

/-- The number a text of JSON stands for, if the text is one. -/
def ofNumber? (chars : List Char) : Option Json :=
  let minus := chars.head? == some '-'
  let body := if minus then chars.drop 1 else chars
  let whole := body.takeWhile Char.isDigit
  let rest := body.dropWhile Char.isDigit
  let s := (digitsOf whole).foldl Significand.whole ⟨0, 0, false⟩
  let signed (x : Float) : Json := .float (if minus then -x else x)
  if whole = [] then none
  else match rest with
  | [] =>
      if s.full then some (signed (scaleByTen s.value s.exponent))
      else if !minus then some (.natural s.value.toUInt64)
      else if 0 < s.value ∧ s.value ≤ 0x8000000000000000 then
        some (.negative (Int64.ofInt (-s.value)))
      else some (signed (scaleByTen s.value 0))
  | '.' :: rest =>
      let places := rest.takeWhile Char.isDigit
      let s := (digitsOf places).foldl Significand.fraction { s with full := false }
      match rest.dropWhile Char.isDigit with
      | [] => some (signed (scaleByTen s.value s.exponent))
      | _ :: power => some (signed (scaleByTen s.value (s.exponent + exponentOf power)))
  | _ :: power => some (signed (scaleByTen s.value (s.exponent + exponentOf power)))

end AttestationIntake.Json
