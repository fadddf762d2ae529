import Abacus.Double.Decimal

/-!
# Numbers

A number is an integer of any size or a binary64 value. Integers stay exact
under addition, subtraction and multiplication; an operation on an integer and a
double first rounds the integer to a double. A division by zero, of any kind and
by either zero, gives the integer `0`.

An operation can also have no result: a quotient or an integer too large for a
double, the remainder of an infinity, or the floor of something that is not a
number. These are the faults.
-/

namespace Abacus

/-- An integer or a binary64 value. -/
inductive Number where
  | int (n : Int)
  | double (x : Double)
  deriving DecidableEq, Repr, Inhabited

namespace Number

/-- Why an operation has no result. -/
inductive Fault where
  /-- The result, or an operand on the way to it, is too large. -/
  | tooLarge
  /-- The remainder of an infinity was asked for. -/
  | outOfDomain
  /-- The floor of no number was asked for. -/
  | floorOfNan
  deriving DecidableEq, Repr

/-! ### Operands -/

/-- Is it a zero? -/
def isZero : Number → Bool
  | .int n => n == 0
  | .double x => x.isZero

/-- The number as a double. -/
def toDouble : Number → Except Fault Double
  | .int n =>
    match Double.ofInt? n with
    | some x => .ok x
    | none => .error .tooLarge
  | .double x => .ok x

/-- The integer that the number equals, if it equals one. -/
def toInt? : Number → Option Int
  | .int n => some n
  | .double x => x.toInt?

/-- Apply an exact operation to two integers, and another to two doubles when one
of the operands is a double. -/
def combine (onInts : Int → Int → Except Fault Number)
    (onDoubles : Double → Double → Except Fault Number) :
    Number → Number → Except Fault Number
  | .int m, .int n => onInts m n
  | a, b => do onDoubles (← a.toDouble) (← b.toDouble)

/-! ### Operations -/

/-- The number with its sign turned. -/
def neg : Number → Number
  | .int n => .int (-n)
  | .double x => .double x.neg

/-- The sum. -/
def add : Number → Number → Except Fault Number :=
  combine (fun m n => .ok (.int (m + n))) (fun x y => .ok (.double (x.add y)))

/-- The difference. -/
def sub : Number → Number → Except Fault Number :=
  combine (fun m n => .ok (.int (m - n))) (fun x y => .ok (.double (x.sub y)))

/-- The product. -/
def mul : Number → Number → Except Fault Number :=
  combine (fun m n => .ok (.int (m * n))) (fun x y => .ok (.double (x.mul y)))

/-- The quotient of two integers, as the nearest double. -/
def divInts (m n : Int) : Except Fault Number :=
  match Double.ofRatio? m n with
  | some x => .ok (.double x)
  | none => .error .tooLarge

/-- The quotient, as a double. -/
def div (a b : Number) : Except Fault Number :=
  if b.isZero then .ok (.int 0)
  else combine divInts (fun x y => .ok (.double (x.div y))) a b

/-- The remainder of two doubles. An infinity has none. -/
def remDoubles (x y : Double) : Except Fault Number :=
  match x.rem y with
  | .nan => if x.isNan || y.isNan then .ok (.double .nan) else .error .outOfDomain
  | r => .ok (.double r)

/-- The remainder of two integers: that of their absolute values, with the sign of the
dividend. -/
def remInts (m n : Int) : Int :=
  let remainder := Int.fmod m.natAbs n.natAbs
  if m < 0 then -remainder else remainder

/-- The remainder. Its sign is that of the dividend. -/
def rem (a b : Number) : Except Fault Number :=
  if b.isZero then .ok (.int 0)
  else combine (fun m n => .ok (.int (remInts m n))) remDoubles a b

/-- The floor of a double, as an integer. -/
def floorDouble (x : Double) : Except Fault Number :=
  match x with
  | .nan => .error .floorOfNan
  | .infinite _ => .error .tooLarge
  | x => .ok (.int (x.floor?.getD 0))

/-- The quotient, rounded down to an integer. -/
def floorDiv (a b : Number) : Except Fault Number :=
  if b.isZero then .ok (.int 0)
  else combine (fun m n => .ok (.int (m.fdiv n))) (fun x y => floorDouble (x.div y)) a b

/-! ### Text -/

/-- The most decimal digits that an integer may have where it is read or written. -/
def digitLimit : Nat := 4300

/-- The decimal text of an integer, if it has no more digits than the limit. -/
def intText? (n : Int) : Option String :=
  if n.natAbs < 10 ^ digitLimit then some (toString n) else none

/-- The text of a number, if it has no more digits than the limit. -/
def text? : Number → Option String
  | .int n => intText? n
  | .double x => some x.text

/-- The name of the kind of number. -/
def kind : Number → String
  | .int _ => "int"
  | .double _ => "float"

end Number

end Abacus
