import Abacus.Code.Basic

/-!
# Code as text

Code is listed as numbered steps. A binary operator takes three of them, and the
last step of every listing returns the result. A number with more digits than the
limit has no text, and neither has code that pushes it.
-/

namespace Abacus

/-- What an operator does to the numbers `A` and `B`. -/
def Operator.step : Operator → String
  | multiply => "Multiply A by B"
  | divide => "Divide A by B"
  | modulo => "Get the remainder of dividing A by B"
  | floorDivide => "Integer divide A by B"
  | add => "Add A to B"
  | subtract => "Subtract B from A"

/-- What a value in the place of an operator does to the numbers `A` and `B`. -/
def Datum.step (d : Datum) : String :=
  match d.denoted? with
  | some op => op.step
  | none => "UNKNOWN ACTION"

namespace Instr

/-- The steps of an instruction. -/
def steps? : Instr → Option (List String)
  | push _ value => value.text?.map fun text => [s!"Push Number {text} onto stack"]
  | negate _ => some ["Negate the value on top of the stack"]
  | apply _ op => some ["Pop values A and B from stack", op.step, "Push result onto stack"]
  | load _ name => some [s!"Push value of '{name}' onto stack"]
  | foreign object => some [s!"UNKNOWN ACTION {object.typeName}"]

/-- The steps of code, the last one included. -/
def allSteps? (code : List Instr) : Option (List String) := do
  let steps ← code.mapM steps?
  return steps.flatten ++ ["Pop final result from stack and return"]

/-- The listing of code, its steps numbered from zero. -/
def listing? (code : List Instr) : Option (List String) :=
  (allSteps? code).map fun steps => steps.mapIdx fun i step => s!"{i}: {step}"

end Instr

end Abacus
