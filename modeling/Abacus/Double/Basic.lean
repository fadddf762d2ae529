/-!
# Binary64 numbers

A `Double` is one of the values of the 64-bit binary format: not a number, an
infinity, or a signed multiple `mantissa * 2 ^ exponent` of a power of two. The
operations are exact: each computes the true result as a fraction of naturals
and rounds it once, to the nearest value, a half to the even neighbour. Zero
keeps its sign.

A finite value is kept in one form: the mantissa is below `2 ^ 53`, the exponent
is at least `-1074`, and either the mantissa fills its 53 bits or the exponent
is the least one.
-/

namespace Abacus

/-- A power of naturals is the one of the core library, whatever else a module imports. -/
instance (priority := 2000) natPower : Pow Nat Nat := instPowNat

/-- A number of the 64-bit binary format. -/
inductive Double where
  /-- Not a number. -/
  | nan
  /-- An infinity. -/
  | infinite (negative : Bool)
  /-- The value `mantissa * 2 ^ exponent`, with its sign. -/
  | finite (negative : Bool) (mantissa : Nat) (exponent : Int)
  deriving DecidableEq, Repr, Inhabited

namespace Double

/-! ### Rounding -/

/-- How many bits a full mantissa has. -/
def precision : Nat := 53

/-- The least exponent. -/
def minExponent : Int := -1074

/-- The greatest exponent. -/
def maxExponent : Int := 971

/-- The quotient `a / b` to the nearest natural, a half to the even one. -/
def roundDiv (a b : Nat) : Nat :=
  let q := a / b
  let r := a % b
  if 2 * r < b then q
  else if b < 2 * r then q + 1
  else if q % 2 = 0 then q
  else q + 1

/-- The exponent of the greatest power of two that is at most `a / b`, for
positive `a` and `b`. -/
def binaryExponent (a b : Nat) : Int :=
  let k : Int := (a.log2 : Int) - (b.log2 : Int)
  if b * 2 ^ k.toNat ≤ a * 2 ^ (-k).toNat then k else k - 1

/-- Zero with a sign. -/
def zero (negative : Bool) : Double := .finite negative 0 minExponent

/-- The value nearest to `a / b`, with a sign; an infinity if that is beyond the
greatest finite value. -/
def round (negative : Bool) (a b : Nat) : Double :=
  if a = 0 then zero negative
  else
    let e := max (binaryExponent a b - (precision - 1 : Nat)) minExponent
    let m := roundDiv (a * 2 ^ (-e).toNat) (b * 2 ^ e.toNat)
    let (m, e) := if m = 2 ^ precision then (2 ^ (precision - 1), e + 1) else (m, e)
    if maxExponent < e then .infinite negative else .finite negative m e

/-- The value nearest to `a * 2 ^ e`, with a sign. -/
def scale (negative : Bool) (a : Nat) (e : Int) : Double :=
  round negative (a * 2 ^ e.toNat) (2 ^ (-e).toNat)

/-! ### Tests -/

/-- Is it not a number? -/
def isNan : Double → Bool
  | .nan => true
  | _ => false

/-- Is it a zero, of either sign? -/
def isZero : Double → Bool
  | .finite _ m _ => m == 0
  | _ => false

/-- The integer that it equals, if it equals one. -/
def toInt? : Double → Option Int
  | .finite s m e =>
    let a := m * 2 ^ e.toNat
    let b := 2 ^ (-e).toNat
    if a % b = 0 then some (if s then -(a / b : Nat) else (a / b : Nat)) else none
  | _ => none

/-! ### Arithmetic -/

/-- The value with its sign turned. -/
def neg : Double → Double
  | .nan => .nan
  | .infinite s => .infinite !s
  | .finite s m e => .finite (!s) m e

/-- The finite value as an integer number of units `2 ^ e`, for an `e` that is at
most its exponent. -/
def units (negative : Bool) (m : Nat) (exponent e : Int) : Int :=
  let a : Int := (m * 2 ^ (exponent - e).toNat : Nat)
  if negative then -a else a

/-- The sum. Opposite infinities have none, and a sum of zero is negative only if
both terms are. -/
def add : Double → Double → Double
  | .nan, _ => .nan
  | _, .nan => .nan
  | .infinite s, .infinite t => if s = t then .infinite s else .nan
  | .infinite s, .finite .. => .infinite s
  | .finite .., .infinite t => .infinite t
  | .finite s m e, .finite t n f =>
    let g := min e f
    let sum := units s m e g + units t n f g
    if sum = 0 then zero (s && t) else scale (sum < 0) sum.natAbs g

/-- The difference. -/
def sub (x y : Double) : Double := x.add y.neg

/-- The product. Zero times an infinity has none. -/
def mul : Double → Double → Double
  | .nan, _ => .nan
  | _, .nan => .nan
  | .infinite s, .infinite t => .infinite (s != t)
  | .infinite s, .finite t n _ => if n = 0 then .nan else .infinite (s != t)
  | .finite s m _, .infinite t => if m = 0 then .nan else .infinite (s != t)
  | .finite s m e, .finite t n f => scale (s != t) (m * n) (e + f)

/-- The quotient. Anything over a zero is infinite, but for zero itself. -/
def div : Double → Double → Double
  | .nan, _ => .nan
  | _, .nan => .nan
  | .infinite _, .infinite _ => .nan
  | .infinite s, .finite t .. => .infinite (s != t)
  | .finite s .., .infinite t => zero (s != t)
  | .finite s m e, .finite t n f =>
    if n = 0 then if m = 0 then .nan else .infinite (s != t)
    else round (s != t) (m * 2 ^ (e - f).toNat) (n * 2 ^ (f - e).toNat)

/-- The remainder of the division toward zero, with the sign of the dividend. It
is exact. There is none for an infinite dividend or a zero divisor. -/
def rem : Double → Double → Double
  | .nan, _ => .nan
  | _, .nan => .nan
  | .infinite _, _ => .nan
  | x@(.finite ..), .infinite _ => x
  | .finite s m e, .finite _ n f =>
    if n = 0 then .nan
    else
      let g := min e f
      scale s ((m * 2 ^ (e - g).toNat) % (n * 2 ^ (f - g).toNat)) g

/-! ### Integers -/

/-- The greatest integer that is at most the finite value. -/
def floor? : Double → Option Int
  | .finite s m e => some ((units s m e (min e 0)).fdiv (2 ^ (-e).toNat : Nat))
  | _ => none

/-- The value nearest to a fraction of integers, unless that is infinite. A zero
is negative when the divisor is. -/
def ofRatio? (a b : Int) : Option Double :=
  match round (decide (a < 0) != decide (b < 0)) a.natAbs b.natAbs with
  | .infinite _ => none
  | x => some x

/-- The value nearest to an integer, unless that is infinite. -/
def ofInt? (n : Int) : Option Double := ofRatio? n 1

end Double

end Abacus
