import Abacus.Double.Basic

/-!
# Decimal text of a binary64 number

A finite number is written with the fewest decimal digits that round to it, and
of those the nearest. A decimal reads back as the number if it lies in the
number's rounding interval, whose ends count when the mantissa is even. The
search goes through the grids of one digit, two digits and so on, and on each
grid looks at the two neighbours of the number; seventeen digits always do.

The digits are laid out with a point, and with an exponent when the number is
below `0.0001` or not below `10 ^ 16`.
-/

namespace Abacus

/-- The decimal `coefficient * 10 ^ exponent`. -/
structure Decimal where
  /-- The digits, read as one natural. -/
  coefficient : Nat
  /-- The power of ten that they count. -/
  exponent : Int
  deriving DecidableEq, Repr

namespace Decimal

/-- The numerator of the decimal as a fraction of naturals. -/
def num (d : Decimal) : Nat := d.coefficient * 10 ^ d.exponent.toNat

/-- The denominator of the decimal as a fraction of naturals. -/
def den (d : Decimal) : Nat := 10 ^ (-d.exponent).toNat

/-- The number nearest to a decimal, with a sign. A decimal far beyond the range
is settled by its size alone. -/
def toDouble (negative : Bool) (d : Decimal) : Double :=
  let size : Int := (Nat.toDigits 10 d.coefficient).length + d.exponent
  if d.coefficient = 0 then .zero negative
  else if 400 < size then .infinite negative
  else if size < -400 then .zero negative
  else .round negative d.num d.den

/-- The exponent of the greatest power of ten that is at most `a / b`, for
positive `a` and `b` of moderate size. -/
def decimalExponent (a b : Nat) : Int :=
  let k := (Double.binaryExponent a b * 30103).fdiv 100000
  let reaches (k : Int) : Bool := b * 10 ^ k.toNat ≤ a * 10 ^ (-k).toNat
  if reaches (k + 1) then k + 1 else if reaches k then k else k - 1

/-- Does the decimal round to `m * 2 ^ e`? The interval is kept in quarters of the
last binary place: it goes half a place up, and half a place down, or a quarter
where the places below are half as wide. -/
def roundsTo (d : Decimal) (m : Nat) (e : Int) : Bool :=
  let low := if m = 2 ^ (Double.precision - 1) ∧ Double.minExponent < e then 4 * m - 1
    else 4 * m - 2
  let high := 4 * m + 2
  let f := e - 2
  let value := d.num * 2 ^ (-f).toNat
  let low := low * 2 ^ f.toNat * d.den
  let high := high * 2 ^ f.toNat * d.den
  if m % 2 = 0 then low ≤ value && value ≤ high else low < value && value < high

/-- The decimal with `n` digits that is nearest to `m * 2 ^ e`, if one of the two
neighbours rounds to it. -/
def neighbour? (m : Nat) (e : Int) (n : Nat) : Option Decimal :=
  let a := m * 2 ^ e.toNat
  let b := 2 ^ (-e).toNat
  let p := decimalExponent a b - n + 1
  let a := a * 10 ^ (-p).toNat
  let b := b * 10 ^ p.toNat
  let below : Decimal := ⟨a / b, p⟩
  let above : Decimal := ⟨a / b + 1, p⟩
  let nearest := if Double.roundDiv a b = a / b then below else above
  let other := if Double.roundDiv a b = a / b then above else below
  if nearest.roundsTo m e then some nearest
  else if other.roundsTo m e then some other
  else none

/-- The shortest decimal that rounds to the positive number `m * 2 ^ e`. -/
def shortest (m : Nat) (e : Int) : Decimal :=
  ((List.range 17).findSome? fun n => neighbour? m e (n + 1)).getD ⟨m, 0⟩

/-! ### Layout -/

/-- The digits without the zeros at their end. -/
def significant (d : Decimal) : List Char :=
  ((Nat.toDigits 10 d.coefficient).reverse.dropWhile (· == '0')).reverse

/-- The place of the first digit: zero for the units, one for the tens. -/
def leading (d : Decimal) : Int := (Nat.toDigits 10 d.coefficient).length + d.exponent - 1

/-- An exponent with its sign and at least two digits. -/
def exponentText (e : Int) : String :=
  let digits := toString e.natAbs
  (if e < 0 then "-" else "+") ++ (if e.natAbs < 10 then "0" ++ digits else digits)

/-- Digits with a point behind the place `0`, the first digit standing at the place
`place`. -/
def positional (digits : List Char) (place : Int) : List Char :=
  if place < 0 then '0' :: '.' :: (List.replicate (-place - 1).toNat '0' ++ digits)
  else
    let whole := place.toNat + 1
    let padded := digits ++ List.replicate (whole - digits.length) '0'
    let fraction := digits.drop whole
    padded.take whole ++ '.' :: (if fraction.isEmpty then ['0'] else fraction)

/-- Digits with a point behind the first one and the exponent that this asks for. -/
def scientific (digits : List Char) (place : Int) : List Char :=
  let mantissa := match digits with
    | first :: rest@(_ :: _) => first :: '.' :: rest
    | _ => digits
  mantissa ++ 'e' :: (exponentText place).toList

/-- The text of a positive decimal. -/
def text (d : Decimal) : String :=
  let place := d.leading
  if -4 ≤ place ∧ place < 16 then String.ofList (positional d.significant place)
  else String.ofList (scientific d.significant place)

end Decimal

/-- The text of a number: the fewest digits that read back. -/
def Double.text : Double → String
  | .nan => "nan"
  | .infinite s => if s then "-inf" else "inf"
  | .finite s m e =>
    let body := if m = 0 then "0.0" else (Decimal.shortest m e).text
    if s then "-" ++ body else body

end Abacus
