import Abacus.Code.Basic
import Abacus.Expr.Basic

/-!
# Code of an expression

The code of an expression is the code of its operands, from left to right, and then
the instruction for its operator. The right operand is then on top of the stack.

A unary operator other than the change of sign and a node outside the language have
no code. Such a node is found on the way to its code: before its operand in the first
case, and behind the code of all that stands to its left. Something outside the
language that is taken for a node gets the code of that node. If it lacks a part, it
stops the writing as well.
-/

namespace Abacus

/-- What stops the writing of code. -/
inductive Culprit where
  /-- A node without code. -/
  | codeless (e : Expr)
  /-- Something of a type with that name is taken for a node, and has no such part. -/
  | hollow (typeName part : String)
  deriving DecidableEq, Repr

/-- The part of a node of a kind that is asked for first, besides its position. -/
def NodeKind.firstPart : NodeKind → String
  | number => "value"
  | identifier => "name"
  | unary => "operator"
  | binary => "left"

/-- The code that was written before something stopped the writing. -/
structure Emission where
  /-- The instructions. -/
  code : List Instr
  /-- What stopped the writing, if something did. -/
  culprit : Option Culprit
  deriving DecidableEq, Repr

namespace Emission

/-- One emission after another. -/
def append (a b : Emission) : Emission :=
  match a.culprit with
  | some _ => a
  | none => ⟨a.code ++ b.code, b.culprit⟩

instance : Append Emission := ⟨append⟩

/-- A single instruction. -/
def instr (i : Instr) : Emission := ⟨[i], none⟩

/-- No code, because of a culprit. -/
def stuck (culprit : Culprit) : Emission := ⟨[], some culprit⟩

end Emission

namespace Expr

/-- Write the code of an expression as far as it has one. -/
def emit : Expr → Emission
  | number p value => .instr (.push p value)
  | identifier p name => .instr (.load p name)
  | unary p .negate e => e.emit ++ .instr (.negate p)
  | unary p (.other value) e => .stuck (.codeless (unary p (.other value) e))
  | binary p op l r => l.emit ++ r.emit ++ .instr (.apply p op)
  | foreign object =>
    match object.guise with
    | .number p value => .instr (.push p value)
    | .identifier p name => .instr (.load p name)
    | .hollow kind => .stuck (.hollow object.typeName kind.firstPart)
    | .stranger => .stuck (.codeless (foreign object))

/-- The code of an expression, or what keeps it from having one. -/
def code (e : Expr) : Except Culprit (List Instr) :=
  match e.emit with
  | ⟨code, none⟩ => .ok code
  | ⟨_, some culprit⟩ => .error culprit

end Expr

end Abacus
