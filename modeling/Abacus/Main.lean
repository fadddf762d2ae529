import Abacus.CommandLine.Run

/-!
# The program

Runs the command and writes what it answers.
-/

namespace Abacus.CommandLine

/-- Run the command on a toolkit, with the files that it may be asked for. -/
def perform (toolkit : Toolkit) (files : String → FileEntry) (args : List String) : IO UInt32 := do
  let answer := run toolkit files args
  (← IO.getStdout).putStr answer.output
  (← IO.getStderr).putStr answer.errorOutput
  return answer.exitCode.toUInt32

end Abacus.CommandLine
