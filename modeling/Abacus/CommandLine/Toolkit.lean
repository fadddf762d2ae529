import Abacus.Failure

/-!
# What the command is built on

The command leaves two things to a toolkit. The toolkit reads the arguments by what the
command declares, and hands the command what was asked for; help, the version and
arguments that do not fit are answered by the toolkit itself. And it writes the texts of
the command to the two outputs. All that the command does is a function of its toolkit.
-/

namespace Abacus.CommandLine

/-! ### What goes in and comes out -/

/-- What stands under a name. -/
inductive FileEntry where
  | missing
  | directory
  /-- A file that may not be read. -/
  | locked
  | bytes (content : List UInt8)

/-- What the command does. -/
structure Answer where
  /-- The code with which it ends. -/
  exitCode : Nat
  /-- What is written to the standard output. -/
  output : String
  /-- The log, which is written to the standard error. -/
  log : String
  /-- What is written to the standard error behind the log. -/
  errors : String
  deriving DecidableEq, Repr

/-- All that goes to the standard error. -/
def Answer.errorOutput (a : Answer) : String := a.log ++ a.errors

/-! ### What the command declares -/

/-- How an option is written, and what it is for. -/
structure OptionHelp where
  /-- The spellings of the option. -/
  spellings : List String
  /-- What it does. -/
  purpose : String

/-- A paragraph of the description of a command. -/
inductive Paragraph where
  /-- The lines are filled anew. -/
  | filled (text : String)
  /-- The lines stay as they are. -/
  | verbatim (lines : List String)

/-- What the command declares: one operand at most, an option with a value, and options
without one. -/
structure Declaration where
  /-- The name of the command. -/
  program : String
  /-- Its version. -/
  version : String
  /-- What it does. -/
  description : List Paragraph
  /-- The name of the operand. -/
  operand : String
  /-- The option for a file. The file has to be there, and to be no directory. -/
  file : OptionHelp
  /-- The option for the tokens. -/
  tokens : OptionHelp
  /-- The option for the tree. -/
  tree : OptionHelp
  /-- The option for the code. -/
  code : OptionHelp
  /-- The option for all of it and the log. -/
  verbose : OptionHelp

/-- The command. -/
def declaration : Declaration where
  program := "txrc"
  version := "1.0.0"
  description := [
    .filled "Compile and run a TXR arithmetic expression.",
    .filled "EXPRESSION is the source text to evaluate. Use -f to read it from a file instead.",
    .verbatim [
      "Examples:",
      "    txrc \"2 * (5 + 5) - 1\"      # 19",
      "    txrc \"7 mod 4\"              # 3",
      "    txrc --bytecode -- \"-(1 + 2)\"  # listing, then -3",
      "    txrc -f expr.txr            # read from a file"],
    .verbatim [
      "Operators (tightest first):",
      "    * / % div mod",
      "    + -",
      "Division and modulo by zero evaluate to 0."]]
  operand := "EXPRESSION"
  file := ⟨["-f", "--file"], "Read the expression from a file"⟩
  tokens := ⟨["--tokens"], "Print the token list"⟩
  tree := ⟨["--ast"], "Print the syntax tree"⟩
  code := ⟨["--bytecode"], "Print the bytecode listing"⟩
  verbose := ⟨["-v", "--verbose"], "Print every stage and enable debug logging"⟩

/-! ### The toolkit -/

/-- What the arguments ask of the command. -/
structure Request where
  /-- The expression, if it is an operand. -/
  expression : Option String
  /-- The file that was named. -/
  file : Option String
  /-- List the tokens. -/
  tokens : Bool
  /-- List the tree. -/
  tree : Bool
  /-- List the code. -/
  code : Bool
  /-- List every stage and write the log. -/
  verbose : Bool
  deriving DecidableEq, Repr

/-- One of the two outputs. -/
inductive Channel where
  | output
  | errors
  deriving DecidableEq, Repr

/-- What the command is built on. -/
structure Toolkit where
  /-- What arguments ask of a command that declares so much, or the answer in its place. -/
  read : Declaration → (String → FileEntry) → List String → Except Answer Request
  /-- What goes to an output when a text is to be written there. -/
  echo : Channel → String → String

end Abacus.CommandLine
