import Abacus.Code.Listing
import Abacus.Expr.Listing
import Abacus.Text.Lines
import Abacus.Text.Upper

/-!
# Stages

The work on a source text goes through three stages: tokens, a tree and code. Each
can be listed under its title. A stage of any other name lists its payload on one
line.
-/

namespace Abacus

/-- What a stage outside the three carries. -/
inductive Payload where
  /-- A single value. -/
  | datum (value : Datum)
  /-- A list of tokens. -/
  | tokens (ts : List Token)
  deriving DecidableEq, Repr

/-- The payload on one line. -/
def Payload.quoted? : Payload → Option String
  | datum value => value.quoted?
  | tokens ts => (ts.mapM Token.description?).map fun items => "[" ++ ", ".intercalate items ++ "]"

/-- What a stage of the work has given. -/
inductive Stage where
  /-- The tokens. -/
  | tokens (ts : List Token)
  /-- The tree. -/
  | tree (e : Expr)
  /-- The code. -/
  | code (instrs : List Instr)
  /-- A stage of another name. -/
  | other (name : String) (payload : Payload)
  deriving DecidableEq, Repr

namespace Stage

/-- The name of a stage. -/
def name : Stage → String
  | tokens _ => "tokens"
  | tree _ => "ast"
  | code _ => "bytecode"
  | other name _ => name

/-- The listing of a stage. A tree is cut at every end of line, also at those inside a
name. -/
def lines? : Stage → Option (List String)
  | tokens ts => Token.listing? ts
  | tree e => e.text?.map Text.lines
  | code instrs => Instr.listing? instrs
  | other _ payload => payload.quoted?.map fun text => [text]

/-- The title of a stage: its name in upper case. -/
def title (s : Stage) : String := Text.upper s.name

/-- The listing of a stage under its title, indented. -/
def render? (s : Stage) : Option String :=
  s.lines?.map fun lines => s.title ++ ":\n" ++ "\n".intercalate (lines.map ("  " ++ ·))

/-- The listing of a stage under its title, as one log message. -/
def logMessage? (s : Stage) : Option String :=
  s.lines?.map fun lines => s.title ++ ":\n  " ++ "\n  ".intercalate lines

end Stage

end Abacus
