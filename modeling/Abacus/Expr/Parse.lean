import Abacus.Expr.Basic
import Abacus.Token.Basic

/-!
# Parsing

An expression is an operand, or operands with operators between them. An operand is
a number, a name, an expression in parentheses, or an operand behind a plus or a
minus sign. A plus sign leaves no trace in the tree.

The operators of an expression are first collected with their operands, and then
resolved in one sweep for each rank, the tightest first. A sweep goes from left to
right and joins each operator of its rank with its neighbours, so operators of one
rank group to the left.

Groups and signs may be nested to a fixed depth, and no tree may be deeper than
that. Since a group or a sign uses up one level of it, the levels that are left
bound the recursion.

Parsing stops at the first fault. Where it stopped, what was left to read and how
many levels were open is kept with the fault.
-/

namespace Abacus.Parse

/-- Why a list of tokens is no expression. -/
inductive Cause where
  /-- The token starts no operand. -/
  | noOperand
  /-- The token stands where a group should close. -/
  | unclosedGroup
  /-- The token follows a whole expression. -/
  | surplus
  /-- The token stands for an operator and is none. -/
  | noOperator
  /-- The token opens a level too many. -/
  | tooDeep
  deriving DecidableEq, Repr

/-- Why parsing stopped, and at which token. -/
structure Fault where
  /-- What is wrong. -/
  cause : Cause
  /-- The token at fault. -/
  token : Token
  deriving DecidableEq, Repr

/-- Where parsing stopped. -/
structure Stop where
  /-- What stopped it. -/
  fault : Fault
  /-- The tokens not yet taken. -/
  rest : List Token
  /-- How many groups and signs were open. -/
  nesting : Nat
  deriving DecidableEq, Repr

/-- How deep groups, signs and trees may be. -/
def depthLimit : Nat := 200

/-! ### Resolving operators -/

/-- An operator with its token and the operand behind it. -/
structure Join where
  /-- The token of the operator. -/
  token : Token
  /-- The operator. -/
  operator : Operator
  /-- The operand to its right. -/
  right : Expr

/-- The node, unless the tree is too deep. -/
def checkDepth (t : Token) (e : Expr) : Except Fault Expr :=
  if depthLimit < e.depth then .error ⟨.tooDeep, t⟩ else .ok e

/-- Join every operator of one rank with its neighbours, from left to right. -/
def sweep (rank : Nat) (left : Expr) : List Join → Except Fault (Expr × List Join)
  | [] => .ok (left, [])
  | j :: joins =>
    if j.operator.rank = rank then do
      let node ← checkDepth j.token (.binary j.token.position (.operator j.operator) left j.right)
      sweep rank node joins
    else do
      let (right, rest) ← sweep rank j.right joins
      return (left, { j with right } :: rest)

/-- The operator of a token, if its value is one. -/
def toJoin (token : Token) (right : Expr) : Except Fault Join :=
  match token.value.operator? with
  | some operator => .ok ⟨token, operator, right⟩
  | none => .error ⟨.noOperator, token⟩

/-- The tree of an operand and the operators and operands that follow it. -/
def resolve (first : Expr) (run : List (Token × Expr)) : Except Fault Expr := do
  let joins ← run.mapM fun (token, right) => toJoin token right
  let (first, joins) ← sweep 0 first joins
  let (tree, _) ← sweep 1 first joins
  return tree

/-! ### Operands and expressions -/

/-- Something read from the front of a list of tokens, and the tokens behind it. -/
abbrev Front (α : Type) := α × List Token

/-- Operators with an operand behind each, as many as there are, given how an
operand is read. The fuel is the number of tokens. -/
def operatorRun (operand : List Token → Except Stop (Front Expr)) :
    Nat → List Token → Except Stop (Front (List (Token × Expr)))
  | fuel + 1, t :: rest =>
    if t.lexeme.isOperator then do
      let (right, rest) ← operand rest
      let (run, rest) ← operatorRun operand fuel rest
      return ((t, right) :: run, rest)
    else .ok ([], t :: rest)
  | _, ts => .ok ([], ts)

/-- An expression inside `nesting` groups and signs, given how an operand is read
there. -/
def expression (operand : List Token → Except Stop (Front Expr)) (nesting : Nat) (ts : List Token) :
    Except Stop (Front Expr) := do
  let (first, rest) ← operand ts
  let (run, rest) ← operatorRun operand rest.length rest
  match resolve first run with
  | .ok tree => .ok (tree, rest)
  | .error fault => .error ⟨fault, rest, nesting⟩

/-- The end of a group inside `nesting` groups and signs, itself counted. -/
def closeGroup (nesting : Nat) (e : Expr) : List Token → Except Stop (Front Expr)
  | t :: rest =>
    if t.lexeme = .closeParen then .ok (e, rest)
    else .error ⟨⟨.unclosedGroup, t⟩, rest, nesting⟩
  | [] => .error ⟨⟨.unclosedGroup, .ofLexeme .endOfInput 0⟩, [], nesting⟩

/-- An operand, when `room` more groups and signs may be opened. -/
def operand (room : Nat) : List Token → Except Stop (Front Expr)
  | [] => .error ⟨⟨.noOperand, .ofLexeme .endOfInput 0⟩, [], depthLimit - room⟩
  | t :: rest =>
    let nesting := depthLimit - room
    let unexpected := .error ⟨⟨.noOperand, t⟩, rest, nesting⟩
    match t.lexeme with
    | .number value => .ok (.number t.position value, rest)
    | .identifier name => .ok (.identifier t.position name, rest)
    | .openParen =>
      match room with
      | 0 => .error ⟨⟨.tooDeep, t⟩, rest, nesting + 1⟩
      | room + 1 => do
        let (e, rest) ← expression (operand room) (nesting + 1) rest
        closeGroup (nesting + 1) e rest
    | .operator value =>
      match value.denoted?, room with
      | some .add, 0 => .error ⟨⟨.tooDeep, t⟩, rest, nesting + 1⟩
      | some .add, room + 1 => operand room rest
      | some .subtract, 0 => .error ⟨⟨.tooDeep, t⟩, rest, nesting + 1⟩
      | some .subtract, room + 1 => do
        let (e, rest) ← operand room rest
        match checkDepth t (.unary t.position .negate e) with
        | .ok node => .ok (node, rest)
        | .error fault => .error ⟨fault, rest, nesting⟩
      | _, _ => unexpected
    | _ => unexpected

/-! ### Whole lists of tokens -/

/-- The tokens with an end of input behind them, if they do not have one. -/
def close (ts : List Token) : List Token :=
  match ts.getLast? with
  | none => [.ofLexeme .endOfInput 0]
  | some last => if last.isEnd then ts else ts ++ [.ofLexeme .endOfInput (last.position + 1)]

/-- The one expression that closed tokens hold, up to the first end of input. -/
def whole (ts : List Token) : Except Stop (Front Expr) := do
  let (tree, rest) ← expression (operand depthLimit) 0 ts
  match rest with
  | t :: _ => if t.isEnd then .ok (tree, rest) else .error ⟨⟨.surplus, t⟩, rest, 0⟩
  | [] => .ok (tree, [])

/-- The expression that a list of tokens holds. -/
def tree (ts : List Token) : Except Fault Expr :=
  match whole (close ts) with
  | .ok (tree, _) => .ok tree
  | .error stop => .error stop.fault

end Abacus.Parse
