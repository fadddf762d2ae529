import Abacus.Datum

/-!
# Expressions

An expression is a tree of numbers, names, a unary operator and binary operators.
Each node keeps the offset of the token that it came from. A tree can be made by
hand, so a value that is no operator may stand in the place of one, and a node may
be something outside the language.

How a node is coded and listed depends on the name of its type. So something outside
the language that bears the name of a node is taken for one, and if it lacks a part of
such a node, the attempt to get at it fails.

The depth of a tree is found with a list of nodes still to look at, so that it
takes no more room on a deep tree than on a wide one.
-/

namespace Abacus

/-- A unary operator. -/
inductive UnaryOperator where
  /-- The change of sign. -/
  | negate
  /-- A value that is no unary operator. -/
  | other (value : Datum)
  deriving DecidableEq, Repr, Inhabited

/-- An expression. -/
inductive Expr where
  /-- A number. -/
  | number (position : Int) (value : Number)
  /-- A name. -/
  | identifier (position : Int) (name : String)
  /-- A unary operator and its operand. -/
  | unary (position : Int) (operator : UnaryOperator) (operand : Expr)
  /-- A binary operator, or a value in its place, and its operands. -/
  | binary (position : Int) (operator : Datum) (left right : Expr)
  /-- Something outside the language. -/
  | foreign (object : Foreign)
  deriving DecidableEq, Repr, Inhabited

/-- A kind of node of the language. -/
inductive NodeKind where
  | number
  | identifier
  | unary
  | binary
  deriving DecidableEq, Repr

/-- The kind of node whose type has a name. -/
def NodeKind.ofTypeName? : String → Option NodeKind
  | "NumberLiteral" => some number
  | "IdentifierExpression" => some identifier
  | "UnaryExpression" => some unary
  | "BinaryExpression" => some binary
  | _ => none

/-- What something outside the language is taken for. -/
inductive Guise where
  /-- A number: it bears the name and has the parts of one. -/
  | number (position : Int) (value : Number)
  /-- A name: it bears the name and has the parts of one. -/
  | identifier (position : Int) (name : String)
  /-- A node of a kind of which it lacks a part. -/
  | hollow (kind : NodeKind)
  /-- No node. -/
  | stranger
  deriving DecidableEq, Repr

/-- What something outside the language is taken for, by the name of its type. -/
def Foreign.guise (object : Foreign) : Guise :=
  match NodeKind.ofTypeName? object.typeName, object with
  | none, _ => .stranger
  | some .number, valued _ p value => .number p value
  | some .identifier, named _ p name => .identifier p name
  | some kind, _ => .hollow kind

namespace Expr

/-- The name of the type of a node. -/
def typeName : Expr → String
  | number .. => "NumberLiteral"
  | identifier .. => "IdentifierExpression"
  | unary .. => "UnaryExpression"
  | binary .. => "BinaryExpression"
  | foreign object => object.typeName

/-- What a node gives as its position. -/
def position : Expr → Datum
  | number p _ | identifier p _ | unary p .. | binary p .. => .number (.int p)
  | foreign object => object.position

/-- The nodes right below a node, from left to right. -/
def children : Expr → List Expr
  | unary _ _ e => [e]
  | binary _ _ l r => [l, r]
  | _ => []

/-- How many nodes a tree has. -/
def size : Expr → Nat
  | unary _ _ e => 1 + e.size
  | binary _ _ l r => 1 + l.size + r.size
  | _ => 1

/-- The greatest level among the nodes of the pending trees, each of which stands
at a level of its own, and the level found so far. The last tree in the source is
looked at first. Every step looks at one node. -/
def depthFrom : Nat → List (Expr × Nat) → Nat → Nat
  | 0, _, deepest => deepest
  | _ + 1, [], deepest => deepest
  | fuel + 1, (e, level) :: pending, deepest =>
    let below := e.children.map fun child => (child, level + 1)
    depthFrom fuel (below.reverse ++ pending) (max deepest level)

/-- How many levels a tree has. A leaf has one. -/
def depth (e : Expr) : Nat := depthFrom e.size [(e, 1)] 0

/-- The outermost nodes with a property, from left to right: nothing below such a
node is looked at. -/
def outermost (p : Expr → Bool) (e : Expr) : List Expr :=
  if p e then [e]
  else match e with
    | unary _ _ e => e.outermost p
    | binary _ _ l r => l.outermost p ++ r.outermost p
    | _ => []

end Expr

end Abacus
