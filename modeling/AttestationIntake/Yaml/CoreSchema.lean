import AttestationIntake.DataError
import AttestationIntake.Decimal.Nearest
import AttestationIntake.Yaml.Document

/-!
What scalars stand for. Plain scalars can be numbers, booleans or nothing; the others are text
unless a tag says what they are.
-/

namespace AttestationIntake.Yaml

/-! ## Whole numbers -/

def digits? (base : Nat) (chars : List Char) : Option Nat :=
  let digits := chars.filterMap fun c => (hexValue? c).filter (· < base)
  if chars = [] ∨ digits.length < chars.length then none
  else some (digits.foldl (fun value digit => value * base + digit) 0)

/-- A number without a sign. Decimal numbers have no leading zeros. -/
def magnitude? : List Char → Option Nat
  | '0' :: 'x' :: chars => digits? 16 chars
  | '0' :: 'o' :: chars => digits? 8 chars
  | '0' :: 'b' :: chars => digits? 2 chars
  | '0' :: _ :: _ => none
  | chars => digits? 10 chars

def dropPlus (chars : List Char) : List Char :=
  if chars.head? = some '+' then chars.drop 1 else chars

/-- A number that is not negative. -/
def natural? (chars : List Char) : Option Nat := magnitude? (dropPlus chars)

def word? (chars : List Char) : Option UInt64 :=
  (natural? chars).bind fun n => if n < UInt64.size then some n.toUInt64 else none

/-- A number of at most 128 bits. -/
def integer? : List Char → Option Int
  | '-' :: chars =>
      (magnitude? chars).bind fun n => if n ≤ 1 <<< 127 then some (-(n : Int)) else none
  | chars => (natural? chars).bind fun n => if n < 1 <<< 128 then some n else none

/-! ## Floating-point numbers -/

/-- The power of ten that is written behind a decimal. -/
def power? (chars : List Char) : Option Int :=
  match chars with
  | '-' :: chars => (digits? 10 chars).map fun n => -(n : Int)
  | chars => (digits? 10 (dropPlus chars)).map fun n => (n : Int)

/-- Digits with at most one point, and a power of ten. -/
def decimal? (chars : List Char) : Option Decimal := do
  let whole := chars.takeWhile Char.isDigit
  let rest := chars.dropWhile Char.isDigit
  let (fraction, rest) := match rest with
    | '.' :: rest => (rest.takeWhile Char.isDigit, rest.dropWhile Char.isDigit)
    | _ => ([], rest)
  let digits ← digits? 10 (whole ++ fraction)
  let power ← match rest with
    | [] => some 0
    | c :: rest => if c = 'e' ∨ c = 'E' then power? rest else none
  return ⟨digits, power - fraction.length⟩

def isInfinity (chars : List Char) : Bool :=
  [".inf", ".Inf", ".INF"].contains (String.ofList chars)

def isNaN (chars : List Char) : Bool :=
  [".nan", ".NaN", ".NAN"].contains (String.ofList chars)

/-- Decimals past the greatest number are not numbers. -/
def float? (chars : List Char) : Option Float :=
  if isNaN chars then some (Float.ofBits 0x7ff8000000000000)
  else
    let negative := chars.head? = some '-'
    let chars := if negative then chars.drop 1 else dropPlus chars
    let size :=
      if isInfinity chars then some (Float.ofBits 0x7ff0000000000000)
      else (decimal? chars).bind Decimal.toFloat?
    size.map fun x => if negative then -x else x

/-! ## Scalars -/

def isNull (text : String) : Bool := ["null", "Null", "NULL", "~"].contains text

def bool? (text : String) : Option Bool :=
  if ["true", "True", "TRUE"].contains text then some true
  else if ["false", "False", "FALSE"].contains text then some false
  else none

/-- Digits behind a zero are not a number. -/
def isPadded (chars : List Char) : Bool :=
  let digits := if chars.head? = some '-' then chars.drop 1 else dropPlus chars
  1 < digits.length && digits.head? = some '0' && digits.all Char.isDigit

/-- What a plain scalar stands for. -/
def plainFound (text : String) : Found :=
  let chars := text.toList
  if chars = [] || isNull text then .nothing
  else match bool? text, integer? chars with
    | some value, _ => .bool value
    | none, some value => .integer value
    | none, none =>
        match if isPadded chars then none else float? chars with
        | some value => .float value
        | none => .text text

/-- A tag for a type of scalars. -/
def coreTag (name : String) : String := "tag:yaml.org,2002:" ++ name

/-- What a scalar stands for. A tag for a type that the text is none of is an error. -/
def Scalar.found (scalar : Scalar) : Except DataError Found :=
  let text := scalar.text
  let orElse (found : Option Found) (expected : String) : Except DataError Found :=
    match found with
    | some found => .ok found
    | none => .error (.invalidValue (.text text) expected)
  match scalar.tag with
  | none => .ok (if scalar.style = .plain then plainFound text else .text text)
  | some tag =>
      if tag = coreTag "bool" then orElse ((bool? text).map .bool) "a boolean"
      else if tag = coreTag "int" then orElse ((integer? text.toList).map .integer) "an integer"
      else if tag = coreTag "float" then orElse ((float? text.toList).map .float) "a float"
      else if tag = coreTag "null" then orElse (if isNull text then some .nothing else none) "null"
      else if tag.startsWith "!" && scalar.style = .plain then .ok (plainFound text)
      else .ok (.text text)

/-- The value of a scalar where a word is called for. Only plain scalars hold numbers, whatever
their tag, and literal ones that have the tag for it. -/
def Scalar.word? (scalar : Scalar) : Option UInt64 :=
  if scalar.style = .plain ∨ (scalar.style = .literal ∧ scalar.tag = some (coreTag "int")) then
    Yaml.word? scalar.text.toList
  else none

end AttestationIntake.Yaml
