import Abacus.Datum

/-!
# Code

Code is a list of instructions for a machine with a stack of numbers. Each
instruction keeps the offset of the token that it came from. Code can be made by
hand, so a value that is no operator may stand in the place of one, and an
instruction may be something outside the language.
-/

namespace Abacus

/-- An instruction. -/
inductive Instr where
  /-- Push a number. -/
  | push (position : Int) (value : Number)
  /-- Turn the sign of the number on top. -/
  | negate (position : Int)
  /-- Pop two numbers, the right one first, and push the result of an operator. -/
  | apply (position : Int) (operator : Datum)
  /-- Push the value of a name. No name has one. -/
  | load (position : Int) (name : String)
  /-- Something outside the language. -/
  | foreign (object : Foreign)
  deriving DecidableEq, Repr, Inhabited

namespace Instr

/-- The name of the type of an instruction. -/
def typeName : Instr → String
  | push .. => "PushNumber"
  | negate _ => "Negate"
  | apply .. => "ApplyBinaryOp"
  | load .. => "LoadIdentifier"
  | foreign object => object.typeName

/-- What an instruction gives as its position. -/
def position : Instr → Datum
  | push p _ | negate p | apply p _ | load p _ => .number (.int p)
  | foreign object => object.position

end Instr

end Abacus
