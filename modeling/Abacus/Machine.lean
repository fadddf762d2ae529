import Abacus.Code.Basic

/-!
# The stack machine

The machine holds a stack of numbers, given here with its top first. Code runs
instruction by instruction and must leave exactly one number, its result. The
operator of an instruction is looked up before its operands are popped; what a
failing instruction has popped stays popped.
-/

namespace Abacus.Machine

/-- The numbers on the stack, the top first. -/
abbrev Stack := List Number

/-- Why the machine stops. -/
inductive Fault where
  /-- A number was popped from an empty stack. -/
  | emptyStack
  /-- The code left none or several numbers. -/
  | unbalanced (depth : Nat)
  /-- A name has no value. -/
  | unknownName (name : String) (position : Int)
  /-- The value in the place of an operator denotes none. -/
  | inapplicable (operator : Datum) (position : Int)
  /-- An operator has no result. -/
  | arithmetic (fault : Number.Fault) (operator : Datum) (position : Int)
  /-- The instruction is outside the language. -/
  | foreignInstr (object : Foreign)
  deriving DecidableEq, Repr

/-- What stopped the machine, and the stack that it left. -/
structure Halt where
  /-- What stopped it. -/
  fault : Fault
  /-- The stack. -/
  stack : Stack
  deriving DecidableEq, Repr

/-- Carry out one instruction. -/
def step : Instr → Stack → Except Halt Stack
  | .push _ value, stack => .ok (value :: stack)
  | .negate _, a :: stack => .ok (a.neg :: stack)
  | .negate _, [] => .error ⟨.emptyStack, []⟩
  | .apply p value, stack =>
    match value.denoted?, stack with
    | none, stack => .error ⟨.inapplicable value p, stack⟩
    | some op, b :: a :: stack =>
      match op.apply a b with
      | .ok result => .ok (result :: stack)
      | .error fault => .error ⟨.arithmetic fault value p, stack⟩
    | some _, _ => .error ⟨.emptyStack, []⟩
  | .load p name, stack => .error ⟨.unknownName name p, stack⟩
  | .foreign object, stack => .error ⟨.foreignInstr object, stack⟩

/-- Carry out code on a stack. -/
def exec : List Instr → Stack → Except Halt Stack
  | [], stack => .ok stack
  | i :: code, stack => do exec code (← step i stack)

/-- The result of code on an empty stack. -/
def run (code : List Instr) : Except Halt Number := do
  match ← exec code [] with
  | [result] => return result
  | stack => throw ⟨.unbalanced stack.length, stack⟩

end Abacus.Machine
