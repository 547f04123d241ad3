/-!
The shortest decimal that stands for a binary floating-point number: of all decimals that read back
as the number, one with the fewest digits, and the nearest of those. A finite positive number is
`m · 2 ^ q`; the decimals that read back as it fill an interval that reaches half way to its
neighbours and includes its ends when `m` is even. On each decimal grid only the two points next to
the number need a test.
-/

namespace AttestationIntake

/-- A decimal `digits · 10 ^ exponent`. -/
structure Decimal where
  digits : Nat
  exponent : Int
deriving DecidableEq, Repr

namespace Decimal

/-- A positive number `m · 2 ^ q`. It is `lowest` when the gap to the number below is half the gap
to the number above. -/
structure Binary where
  m : Nat
  q : Int
  lowest : Bool

/-- `a · 2 ^ q · 10 ^ (-k)` as a fraction. -/
def scaled (a : Nat) (q k : Int) : Nat × Nat :=
  ((a <<< q.toNat) * Nat.pow 10 (-k).toNat, (1 <<< (-q).toNat) * Nat.pow 10 k.toNat)

/-- Which of two decimals is taken that are equally near: the one with the even last digit, or the
greater one. -/
inductive Tie where
  | even
  | up
deriving DecidableEq, Repr

/-- The nearest point of the grid of multiples of `10 ^ k` that reads back as `b`, if any does. -/
def onGrid? (tie : Tie) (b : Binary) (k : Int) : Option Decimal :=
  let q := b.q - 2
  let (value, unit) := scaled (4 * b.m) q k
  let low := (scaled (4 * b.m - if b.lowest then 1 else 2) q k).1
  let high := (scaled (4 * b.m + 2) q k).1
  let reads (c : Nat) : Bool :=
    if b.m % 2 = 0 then low ≤ c * unit && c * unit ≤ high else low < c * unit && c * unit < high
  let below := value / unit
  let twice := 2 * (value % unit)
  let isLower := twice < unit || (twice = unit && tie = .even && below % 2 = 0)
  let nearest := if isLower then [below, below + 1] else [below + 1, below]
  (nearest.find? reads).map fun c => ⟨c, k⟩

/-- A power of ten above `m · 2 ^ q`, by its exponent. -/
def topExponent (b : Binary) : Int :=
  (b.m.log2 + b.q + 1) * 30103 / 100000 + 2

/-- The first grid, from coarse to fine, that has a point reading back as `b`. Seventeen digits are
always enough. -/
def shortest (tie : Tie) (b : Binary) : Decimal :=
  let top := topExponent b
  ((List.range 24).findSome? fun (i : Nat) => onGrid? tie b (top - i)).getD ⟨0, 0⟩

end Decimal

/-- What a floating-point number is. -/
inductive FloatShape where
  | nan
  | infinite (negative : Bool)
  | finite (negative : Bool) (value : Decimal)
deriving DecidableEq, Repr

/-- Reads the sign, the exponent and the significand of `x` off its bits. -/
def FloatShape.of (tie : Decimal.Tie) (x : Float) : FloatShape :=
  let word := x.toBits.toNat
  let negative := word >>> 63 = 1
  let exponent : Nat := (word >>> 52) % 2048
  let fraction := word % (1 <<< 52)
  if exponent = 2047 then
    if fraction = 0 then .infinite negative else .nan
  else if exponent = 0 then
    if fraction = 0 then .finite negative ⟨0, 0⟩
    else .finite negative (Decimal.shortest tie ⟨fraction, -1074, false⟩)
  else
    .finite negative (Decimal.shortest tie
      ⟨(1 <<< 52) + fraction, exponent - 1075, fraction = 0 && exponent != 1⟩)

end AttestationIntake
