import Abacus.Datum
import Abacus.Text.Blank

/-!
# Errors

An error has a cause, a position if one is known, and the source text if it was
attached. The cause fixes the message and the hint. An error is rendered as its
message, then the source text with a caret below the position, then the hint.
-/

namespace Abacus

/-! ### Positions -/

/-- A place in a source text. -/
structure Place where
  /-- The offset. -/
  offset : Int
  /-- Is it the end of the input? -/
  atEnd : Bool
  deriving DecidableEq, Repr

namespace Place

/-- The place at an offset. -/
def ofOffset (offset : Int) : Place := ⟨offset, false⟩

/-- The place in a message. The limit on digits does not matter here, as it does for
values: an offset in a text has few digits. -/
def text (p : Place) : String := if p.atEnd then "<EOF>" else toString p.offset

end Place

/-! ### Causes -/

/-- The part of the work in which an error belongs. -/
inductive Family where
  | general
  | scanning
  | parsing
  | coding
  | running
  deriving DecidableEq, Repr

/-- What is wrong. -/
inductive Cause where
  /-- Something stated in free words. -/
  | stated (family : Family) (message : String) (hint : Option String)
  /-- A text that starts no lexeme, in general one character. -/
  | strayCharacter (text : String)
  /-- A number with too many digits. -/
  | longNumber
  /-- A token that starts no operand. -/
  | noOperand
  /-- A token where a group should close. -/
  | unclosedGroup
  /-- A token behind a whole expression. -/
  | surplus
  /-- A token that stands for an operator and is none. -/
  | noOperator
  /-- A level too many. -/
  | tooDeep (limit : Int)
  /-- A node without code. -/
  | codelessNode (typeName : String)
  /-- A name without a value. -/
  | unknownName (name : String)
  /-- A value that denotes no operator, as it shows in messages. -/
  | inapplicable (shown : String)
  /-- An operator whose result is too large, as it shows in messages. -/
  | resultTooLarge (shown : String)
  /-- An instruction outside the language. -/
  | foreignInstr (typeName : String)
  deriving DecidableEq, Repr

namespace Cause

/-- The part of the work in which the cause belongs. -/
def family : Cause → Family
  | stated family .. => family
  | strayCharacter _ | longNumber => .scanning
  | noOperand | unclosedGroup | surplus | noOperator | tooDeep _ => .parsing
  | codelessNode _ => .coding
  | unknownName _ | inapplicable _ | resultTooLarge _ | foreignInstr _ => .running

/-- The message. -/
def message : Cause → String
  | stated _ message _ => message
  | strayCharacter text => s!"Unexpected character \"{text}\""
  | longNumber => "Number literal too large"
  | noOperand => "Unexpected token"
  | unclosedGroup => "Expected a ')'"
  | surplus => "Trailing data"
  | noOperator => "Illegitimate operator priority"
  | tooDeep _ => "Expression nested too deeply"
  | codelessNode typeName => s!"Cannot compile node of type {typeName}"
  | unknownName name => s!"Variables are not yet implemented (identifier '{name}')"
  | inapplicable shown => s!"Can't apply operator {shown}"
  | resultTooLarge shown => s!"Result of {shown} is too large"
  | foreignInstr typeName => s!"Can't run action {typeName}"

/-- What could be done about it. -/
def hint : Cause → Option String
  | stated _ _ hint => hint
  | strayCharacter _ =>
    some "only digits, letters, '_', '(', ')' and + - * / % are allowed"
  | longNumber => some "use a literal with fewer digits"
  | unclosedGroup => some "add ')' to close the group"
  | surplus => some "an expression must be a single value; join operands with an operator"
  | tooDeep limit => some s!"expressions may nest at most {limit} levels"
  | _ => none

end Cause

/-! ### Errors and diagnostics -/

/-- An error. -/
structure Error where
  /-- What is wrong. -/
  cause : Cause
  /-- Where, if that is known. -/
  position : Option Place
  /-- The source text, if it was attached. -/
  source : Option String
  deriving DecidableEq, Repr

/-- What is remembered of an error. -/
structure Diagnostic where
  /-- The message. -/
  message : String
  /-- Where, if that is known. -/
  position : Option Place
  deriving DecidableEq, Repr

/-- A message with its place, on one line. -/
def withPosition (message : String) : Option Place → String
  | none => message
  | some p => s!"{message} at position {p.text}"

/-- The diagnostic on one line. -/
def Diagnostic.text (d : Diagnostic) : String := withPosition d.message d.position

namespace Error

/-- The message. -/
def message (e : Error) : String := e.cause.message

/-- The error on one line. -/
def summary (e : Error) : String := withPosition e.message e.position

/-- What is remembered of the error. -/
def diagnostic (e : Error) : Diagnostic := ⟨e.message, e.position⟩

/-- The source text, and the caret below the position. The end of the input is
behind the last character. -/
def sourceLines (source : String) (p : Place) : List String :=
  let column : Int := if p.atEnd then source.length else p.offset
  ["    " ++ source, "".pushn ' ' (4 + column).toNat ++ "^"]

/-- The error in full: its message, the source text with a caret, and the hint. -/
def render (e : Error) : String :=
  let context := match e.source, e.position with
    | some source, some p => sourceLines source p
    | _, _ => []
  let hint := match e.cause.hint with
    | some hint => if hint.isEmpty then [] else ["hint: " ++ hint]
    | none => []
  "\n".intercalate (("error: " ++ e.summary) :: context ++ hint)

/-- Attach a source text. It goes on one line, with a space for each blank, so that
the caret stands at the offset. -/
def attach (e : Error) (source : String) : Error :=
  { e with source := some (Text.flatten source) }

end Error

end Abacus
