import Abacus.Calculation
import Abacus.CommandLine.Answer
import Abacus.Text.Utf8

/-!
# The command

The command takes one expression, as an operand or from a file, and prints its value.
On demand it first lists the stages of the work. The toolkit and what stands under the
name of a file are given to it, so that the command itself is a function.
-/

namespace Abacus.CommandLine

/-! ### The source text -/

/-- The text of a file. Its ends of line become line feeds. -/
def readFile (files : String → FileEntry) (name : String) : Except Trouble String :=
  match files name with
  | .missing => .error (.fileAccess s!"[Errno 2] No such file or directory: {Text.quote name}")
  | .locked => .error (.fileAccess s!"[Errno 13] Permission denied: {Text.quote name}")
  | .directory => .error (.unforeseen s!"[Errno 21] Is a directory: {Text.quote name}")
  | .bytes content =>
    match Text.Utf8.decode content with
    | .ok chars => .ok (String.ofList (Text.unifyLineEnds chars))
    | .error fault => .error (.unforeseen fault.message)

/-- The source text that a request gives: its operand or its file, but not both. -/
def Request.source (r : Request) (files : String → FileEntry) : Except Trouble String :=
  match r.expression, r.file with
  | some expression, none => .ok expression
  | none, some name => readFile files name
  | _, _ => .error (.usage "give exactly one of EXPRESSION or --file")

/-! ### The work -/

/-- Does the request ask for the listing of a stage? -/
def Request.lists (r : Request) : Stage → Bool
  | .tokens _ => r.tokens || r.verbose
  | .tree _ => r.tree || r.verbose
  | .code _ => r.code || r.verbose
  | .other .. => false

/-- The options that a request sets. -/
def Request.options (r : Request) : Options :=
  ⟨r.tokens || r.tree || r.code || r.verbose, true, true⟩

/-- The log, if the request asks for it. -/
def Request.logText (r : Request) (j : Journal) : String :=
  if r.verbose then String.join (j.log.map fun l => s!"{l.logger.name}: {l.message}\n")
  else ""

section Toolkit

variable (toolkit : Toolkit)

/-- The listings that the request asks for. -/
def Request.listings (r : Request) (j : Journal) : String :=
  String.join ((j.stages.filter r.lists).map fun s => toolkit.echo .output (s.render?.getD ""))

/-- The answer to a value: its text, if it is not too long. -/
def valueAnswer (verbose : Bool) (value : Number) : Answer :=
  match value.text? with
  | some text => ⟨0, toolkit.echo .output text, "", ""⟩
  | none => Trouble.answer toolkit verbose (.refusal "result has too many digits to print")

/-- The answer to what came of a source text. A value or an error
that was never set shows as such. -/
def resultAnswer (verbose : Bool) : Except Failure Calculation.Result → Answer
  | .error failure => Trouble.answer toolkit verbose (.failure failure)
  | .ok result =>
    if result.success then
      match result.value? with
      | some value => valueAnswer toolkit verbose value
      | none => ⟨0, toolkit.echo .output "None", "", ""⟩
    else
      match result.error? with
      | some e => Trouble.answer toolkit verbose (.failure (.error e))
      | none => Trouble.internalError toolkit "None" "NoneType: None\n" verbose

/-- The answer to a request for the value of a source text. -/
def evaluate (r : Request) (source : String) : Answer :=
  let work := Calculation.calculate r.options source
  (resultAnswer toolkit r.verbose work.result).after (r.listings toolkit work.journal)
    (r.logText work.journal)

/-- The answer to a request. -/
def Request.answer (r : Request) (files : String → FileEntry) : Answer :=
  match r.source files with
  | .ok source => evaluate toolkit r source
  | .error trouble => trouble.answer toolkit r.verbose

/-- What the command does with its arguments. -/
def run (files : String → FileEntry) (args : List String) : Answer :=
  match toolkit.read declaration files args with
  | .ok request => request.answer toolkit files
  | .error answer => answer

end Toolkit

end Abacus.CommandLine
