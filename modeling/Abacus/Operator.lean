import Abacus.Number

/-!
# Operators

The six binary operators. Each has a code, and the high four bits of the code are
its rank: rank `0` binds tighter than rank `1`. Floor division has no spelling in
a source text; only code made by hand applies it.
-/

namespace Abacus

/-- A binary operator. -/
inductive Operator where
  | multiply
  | divide
  | modulo
  | floorDivide
  | add
  | subtract
  deriving DecidableEq, Repr, Inhabited

namespace Operator

/-- All operators. -/
def all : List Operator := [multiply, divide, modulo, floorDivide, add, subtract]

/-- The code of an operator. -/
def code : Operator → Nat
  | multiply => 0x01
  | divide => 0x02
  | modulo => 0x03
  | floorDivide => 0x04
  | add => 0x10
  | subtract => 0x11

/-- How loosely an operator binds. -/
def rank (op : Operator) : Nat := op.code >>> 4

/-- The name of an operator in messages. -/
def label : Operator → String
  | multiply => "MULTIPLY"
  | divide => "FLOAT_DIVIDE"
  | modulo => "MODULO"
  | floorDivide => "INT_DIVIDE"
  | add => "ADD"
  | subtract => "SUBTRACT"

/-- The operator with a given code. -/
def ofCode? (n : Int) : Option Operator := all.find? fun op => (op.code : Int) == n

/-- Apply an operator to two numbers, the left one first. -/
def apply : Operator → Number → Number → Except Number.Fault Number
  | multiply => Number.mul
  | divide => Number.div
  | modulo => Number.rem
  | floorDivide => Number.floorDiv
  | add => Number.add
  | subtract => Number.sub

end Operator

end Abacus
