import AttestationIntake.Decimal.Shortest

/-!
The binary floating-point number that is nearest to a decimal, and of two that are equally near the
one with the even significand. Decimals past the greatest number have none.
-/

namespace AttestationIntake.Decimal

/-- A fraction rounded to a whole number; a half goes to the even neighbour. -/
def roundEven (numerator denominator : Nat) : Nat :=
  let whole := numerator / denominator
  let twice := 2 * (numerator % denominator)
  if twice < denominator ∨ (twice = denominator ∧ whole % 2 = 0) then whole else whole + 1

/-- The nearest of the whole numbers that have at most `bits` significant binary digits. -/
def toSignificant (bits n : Nat) : Nat :=
  let unit := 1 <<< (n.log2 + 1 - bits)
  roundEven n unit * unit

/-- The word of the number nearest to a decimal above zero. The words of neighbours are neighbours
too, so a significand that is rounded up to the next power of two needs no care. -/
def nearestWord (value : Decimal) : Nat :=
  let fraction (q : Int) : Nat × Nat := scaled value.digits (-q) (-value.exponent)
  let (numerator, denominator) := fraction 0
  let least : Int := max (numerator.log2 - denominator.log2 - 53) (-1074)
  let (numerator, denominator) := fraction least
  let q := if denominator <<< 53 ≤ numerator then least + 1 else least
  let (numerator, denominator) := fraction q
  ((q + 1074).toNat <<< 52) + roundEven numerator denominator

/-- The number nearest to a decimal. Where the point is far from all digits that a number can have,
the power of ten is not worked out. -/
def toFloat? (value : Decimal) : Option Float :=
  let place := (Nat.toDigits 10 value.digits).length + value.exponent
  if value.digits = 0 ∨ place < -330 then some (Float.ofBits 0)
  else if 310 < place then none
  else
    let word := nearestWord value
    if word < 2047 <<< 52 then some (Float.ofBits word.toUInt64) else none

end AttestationIntake.Decimal
