import AttestationIntake.Decimal.Shortest

/-!
How a decimal is laid out as text: positionally or with an exponent. A layout fixes for which
places of the point each is used, and which of two equally short and near decimals is written. A
number always keeps a fraction when it is written positionally, if only `.0`.
-/

namespace AttestationIntake

/-- The point of a number `0.d₁d₂… · 10 ^ place` is at `place`. Places above `least` and up to
`greatest` are written positionally; an absent bound bounds nothing. -/
structure DecimalLayout where
  least : Option Int
  greatest : Option Int
  tie : Decimal.Tie

namespace DecimalLayout

def isPositional (layout : DecimalLayout) (place : Int) : Bool :=
  layout.least.all (· < place) && layout.greatest.all (place ≤ ·)

/-- Digits with the point after the first `place` of them, filled up with zeros on either side. -/
def positional (digits : List Char) (place : Int) : List Char :=
  if place ≤ 0 then
    ['0', '.'] ++ List.replicate (-place).toNat '0' ++ digits
  else
    let whole := digits.take place.toNat
    let fraction := digits.drop place.toNat
    whole ++ List.replicate (place.toNat - digits.length) '0' ++ '.' ::
      (if fraction = [] then ['0'] else fraction)

/-- A power of ten, which always has a sign. -/
def exponent (n : Int) : List Char :=
  'e' :: (if n < 0 then '-' else '+') :: Nat.toDigits 10 n.natAbs

/-- One digit before the point, if any follow one after it, and the power of ten. -/
def scientific (digits : List Char) (place : Int) : List Char :=
  match digits with
  | first :: second :: rest => first :: '.' :: second :: rest ++ exponent (place - 1)
  | _ => digits ++ exponent (place - 1)

def decimal (layout : DecimalLayout) (value : Decimal) : List Char :=
  if value.digits = 0 then ['0', '.', '0']
  else
    let digits := Nat.toDigits 10 value.digits
    let place := digits.length + value.exponent
    if layout.isPositional place then positional digits place else scientific digits place

/-- The text of any floating-point number. -/
def float (layout : DecimalLayout) (x : Float) : String :=
  match FloatShape.of layout.tie x with
  | .nan => "NaN"
  | .infinite negative => if negative then "-inf" else "inf"
  | .finite negative value =>
      String.ofList ((if negative then ['-'] else []) ++ layout.decimal value)

/-- Every number in full. -/
def full : DecimalLayout := ⟨none, none, .up⟩

/-- Exponents for numbers of more than sixteen places before the point or less than `10 ^ -5`. -/
def compact : DecimalLayout := ⟨some (-5), some 16, .even⟩

end DecimalLayout

end AttestationIntake
