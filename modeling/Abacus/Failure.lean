import Abacus.Code.Emit
import Abacus.Error
import Abacus.Expr.Parse
import Abacus.Machine
import Abacus.Token.Scan

/-!
# Failures

What stops the work on a source text, a tree or code. Most of it is an error of the
language. The rest is not: a stack that code made by hand left out of balance, an
operation outside its domain, a number too long to be written, and something in a tree
made by hand that bears the name of a node and is none.
-/

namespace Abacus

/-! ### Errors from faults -/

namespace Error

/-- A fault in a source text, which the error shows as it is. -/
def ofScan (source : Option String) (fault : Scan.Fault) : Error :=
  let cause := match fault.cause with
    | .strayCharacter c => Cause.strayCharacter (String.singleton c)
    | .longNumber => .longNumber
  ⟨cause, some (.ofOffset fault.offset), source⟩

/-- An error at a token. -/
def atToken (cause : Cause) (t : Token) : Error := ⟨cause, some ⟨t.position, t.isEnd⟩, none⟩

/-- A fault in a list of tokens. -/
def ofParse (fault : Parse.Fault) : Error :=
  let cause := match fault.cause with
    | .noOperand => Cause.noOperand
    | .unclosedGroup => .unclosedGroup
    | .surplus => .surplus
    | .noOperator => .noOperator
    | .tooDeep => .tooDeep Parse.depthLimit
  atToken cause fault.token

/-- An error at an offset that may not be known. -/
def atOffset (cause : Cause) (offset : Option Int) : Error :=
  ⟨cause, offset.map .ofOffset, none⟩

/-- A node without code. -/
def codelessNode (e : Expr) : Error := atOffset (.codelessNode e.typeName) e.position.offset?

/-- An instruction that the machine does not know. -/
def foreignInstr (typeName : String) (position : Datum) : Error :=
  atOffset (.foreignInstr typeName) position.offset?

/-- A name without a value. -/
def unknownName (name : String) (offset : Option Int) : Error :=
  atOffset (.unknownName name) offset

end Error

/-! ### Failures -/

/-- What stops the work. -/
inductive Failure where
  /-- An error of the language. -/
  | error (e : Error)
  /-- The stack was used out of balance. -/
  | stackMisuse (reason : String) (depth : Int)
  /-- The remainder of an infinity was asked for. -/
  | outOfDomain
  /-- The floor of no number was asked for. -/
  | floorOfNan
  /-- An integer has too many digits to be written. -/
  | tooManyDigits
  /-- Something was taken for a node and lacks a part of it. -/
  | missingPart (typeName part : String)
  deriving DecidableEq, Repr

namespace Failure

/-- The failure in full. -/
def message : Failure → String
  | error e => e.render
  | stackMisuse reason depth => s!"{reason} (stack depth {depth})"
  | outOfDomain => "math domain error"
  | floorOfNan => "cannot convert float NaN to integer"
  | tooManyDigits =>
    s!"Exceeds the limit ({Number.digitLimit} digits) for integer string conversion; " ++
      "use sys.set_int_max_str_digits() to increase the limit"
  | missingPart typeName part => s!"'{typeName}' object has no attribute '{part}'"

/-- A value that denotes no operator. -/
def inapplicable (operator : Datum) (offset : Option Int) : Failure :=
  match operator.quoted? with
  | some shown => error (.atOffset (.inapplicable shown) offset)
  | none => tooManyDigits

/-- A result too large for an operator. -/
def resultTooLarge (operator : Datum) (offset : Option Int) : Failure :=
  match operator.subject? with
  | some shown => error (.atOffset (.resultTooLarge shown) offset)
  | none => tooManyDigits

/-- What stopped the writing of code. -/
def ofCulprit : Culprit → Failure
  | .codeless e => error (.codelessNode e)
  | .hollow typeName part => missingPart typeName part

/-- What stopped the machine. -/
def ofMachine : Machine.Fault → Failure
  | .emptyStack => stackMisuse "pop from empty stack" 0
  | .unbalanced depth => stackMisuse "program must leave exactly one value on the stack" depth
  | .unknownName name p => error (.unknownName name (some p))
  | .inapplicable op p => inapplicable op (some p)
  | .arithmetic .tooLarge op p => resultTooLarge op (some p)
  | .arithmetic .outOfDomain _ _ => outOfDomain
  | .arithmetic .floorOfNan _ _ => floorOfNan
  | .foreignInstr object => error (.foreignInstr object.typeName object.position)

end Failure

end Abacus
