import Abacus.CommandLine.Toolkit

/-!
# Answers to troubles

A command that comes to no value says why on the standard error, and ends with a code:
`1` for an error in the expression, `2` for arguments that do not fit, `3` for anything
else. The code for a value is `0`.
-/

namespace Abacus.CommandLine

/-- Why the command ends without a value. -/
inductive Trouble where
  /-- The work on the expression failed. -/
  | failure (f : Failure)
  /-- The arguments do not fit. -/
  | usage (message : String)
  /-- A file is missing or may not be read. -/
  | fileAccess (message : String)
  /-- The command gives up, for a stated reason. -/
  | refusal (message : String)
  /-- Something else. -/
  | unforeseen (message : String)
  deriving DecidableEq, Repr

namespace Trouble

variable (toolkit : Toolkit)

/-- The answer with a text on the standard error. -/
def complaint (exitCode : Nat) (text : String) : Answer :=
  ⟨exitCode, "", "", toolkit.echo .errors text⟩

/-- The answer to something that should not happen. When the command is verbose it
also writes a trace, past the toolkit. -/
def internalError (message trace : String) (verbose : Bool) : Answer :=
  let answer := complaint toolkit 3 s!"Internal error: {message}"
  if verbose then { answer with errors := answer.errors ++ trace } else answer

/-- How the trace of an exception begins. -/
def traceHead : String := "Traceback (most recent call last):\n"

/-- The answer to a trouble. -/
def answer (verbose : Bool) : Trouble → Answer
  | failure (.error e) => complaint toolkit 1 e.render
  | failure f => internalError toolkit f.message traceHead verbose
  | usage message => complaint toolkit 2 s!"Error: {message}"
  | fileAccess message => complaint toolkit 2 s!"Error: {message}"
  | refusal message => complaint toolkit 1 s!"Error: {message}"
  | unforeseen message => internalError toolkit message traceHead verbose

end Trouble

/-- The answer with a log, and behind what was written before it. -/
def Answer.after (output log : String) (a : Answer) : Answer :=
  ⟨a.exitCode, output ++ a.output, log, a.errors⟩

end Abacus.CommandLine
