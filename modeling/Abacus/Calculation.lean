import Abacus.Code.Emit
import Abacus.Work

/-!
# Calculations

A source text is cut into tokens, the tokens are parsed into a tree, the tree gives
code, and the code runs on the machine. The first failure ends the work. If it is an
error of the language, the result of the calculation holds it; any other failure is
the failure of the calculation itself.
-/

namespace Abacus.Calculation

/-! ### The steps -/

/-- The tokens of a source text. -/
def tokens (source : String) : Except Failure (List Token) :=
  (Scan.tokens source).mapError fun fault => .error (.ofScan (some source) fault)

/-- The tree of a list of tokens. -/
def tree (ts : List Token) : Except Failure Expr :=
  (Parse.tree ts).mapError fun fault => .error (.ofParse fault)

/-- The code of a tree. -/
def code (e : Expr) : Except Failure (List Instr) :=
  e.code.mapError .ofCulprit

/-- The result of code. -/
def value (program : List Instr) : Except Failure Number :=
  (Machine.run program).mapError fun halt => .ofMachine halt.fault

/-! ### All steps -/

/-- The code of a source text. -/
def prepare (o : Options) (source : String) : Work (List Instr) := do
  let ts ← .ofExcept (tokens source)
  .log .scanning .debug s!"Tokenized {source.length} characters into {ts.length} tokens"
  .note (.tokens ts)
  .logStage o (.tokens ts)
  let e ← .ofExcept (tree ts)
  .log .parsing .debug s!"Parsed {ts.length} tokens into {e.typeName}"
  .log .whole .debug s!"AST has {e.size} nodes"
  .note (.tree e)
  .logStage o (.tree e)
  let program ← .ofExcept (code e)
  .log .coding .debug s!"Lowered AST into {program.length} instructions"
  .note (.code program)
  .logStage o (.code program)
  return program

/-- The result of code. -/
def carryOut (program : List Instr) : Work Number := do
  let v ← .ofExcept (value program)
  .log .running .debug s!"Executed {program.length} instructions, result {v.kind}"
  return v

/-- What came of a source text. It is filled in while the work goes on. -/
structure Result where
  /-- The source text. -/
  source : String
  /-- Did all steps succeed? -/
  success : Bool
  /-- The value, if the work came to one. -/
  value? : Option Number
  /-- The error that ended the work, if one did. -/
  error? : Option Error
  /-- The tokens, none if there was an error in the text. -/
  tokens : List Token
  /-- The tree, if there is one. -/
  tree : Option Expr
  /-- The code, none if there is no tree. -/
  code : List Instr

namespace Result

/-- The result as far as a journal goes, before it is known how the work ends. -/
def ofJournal (source : String) (j : Journal) : Result :=
  ⟨source, false, none, none, j.tokens?.getD [], j.tree?, j.code?.getD []⟩

/-- The result of work that came to a value. -/
def succeed (r : Result) (v : Number) : Result := { r with value? := some v, success := true }

/-- The result of work that an error ended. -/
def fail (r : Result) (e : Error) : Result := { r with error? := some e }

/-- What is remembered of a result. -/
def diagnostic (r : Result) : Option Diagnostic := r.error?.map Error.diagnostic

end Result

/-- The value of a source text, or what is wrong with it. -/
def calculate (o : Options) (source : String) : Work Result :=
  let work : Work Number := do carryOut (← prepare o source)
  match work.result with
  | .ok v =>
    let j := work.journal.say .whole s!"{Text.quote source} evaluated to a {v.kind}"
    ⟨.ok ((Result.ofJournal source j).succeed v), j⟩
  | .error (.error e) =>
    let e := if o.showSource then e.attach source else e
    let j := work.journal.say .whole
      s!"Compilation of {Text.quote source} failed: {e.diagnostic.text}"
    ⟨.ok ((Result.ofJournal source j).fail e), j⟩
  | .error failure => ⟨.error failure, work.journal⟩

end Abacus.Calculation
