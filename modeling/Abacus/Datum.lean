import Abacus.Operator
import Abacus.Text.Quoted

/-!
# Loose values

What a token or an instruction carries where an operator is expected need not be
an operator: it can be missing, a number or a text. A number still *denotes* the
operator whose code it equals, so that `16` and `16.0` act as an addition where
only the meaning counts, though neither *is* an operator.
-/

namespace Abacus

/-- A value of any kind. -/
inductive Datum where
  /-- No value. -/
  | missing
  | operator (op : Operator)
  | number (n : Number)
  | text (s : String)
  deriving DecidableEq, Repr, Inhabited

namespace Datum

/-- The operator that the value is. -/
def operator? : Datum → Option Operator
  | .operator op => some op
  | _ => none

/-- The operator that the value is, or whose code it equals. -/
def denoted? : Datum → Option Operator
  | .operator op => some op
  | .number n => n.toInt?.bind Operator.ofCode?
  | _ => none

/-- The value as it stands in a listing; an operator shows its code. -/
def text? : Datum → Option String
  | .missing => some "None"
  | .operator op => some (toString op.code)
  | .number n => n.text?
  | .text s => some s

/-- The value as it stands in a message: a text is quoted, and an operator shows
its name and its code. -/
def quoted? : Datum → Option String
  | .operator op => some s!"<Operator.{op.label}: {op.code}>"
  | .text s => some (Text.quote s)
  | d => d.text?

/-- The value as the subject of a message: an operator goes by its name. -/
def subject? : Datum → Option String
  | .operator op => some op.label
  | d => d.quoted?

/-- The offset that the value gives, if it gives one. An operator counts as its
code. -/
def offset? : Datum → Option Int
  | .operator op => some op.code
  | .number (.int n) => some n
  | _ => none

end Datum

/-- A value outside the language that stands where a node or an instruction is
expected. Its type has a name, and it claims a position. It may have what a number or a
name has besides, but nothing that holds other nodes. -/
inductive Foreign where
  /-- Nothing but a position. -/
  | bare (typeName : String) (position : Datum)
  /-- A position and a value. -/
  | valued (typeName : String) (position : Int) (value : Number)
  /-- A position and a name. -/
  | named (typeName : String) (position : Int) (name : String)
  deriving DecidableEq, Repr

namespace Foreign

/-- The name of its type. -/
def typeName : Foreign → String
  | bare typeName _ | valued typeName .. | named typeName .. => typeName

/-- What it gives as its position. -/
def position : Foreign → Datum
  | bare _ position => position
  | valued _ position _ | named _ position _ => .number (.int position)

end Foreign

end Abacus
