import InputMask.CommandLine.Report
import InputMask.CommandLine.Splitting
import InputMask.Regex.Engine

/-!
# The program

Hands the words of the command line and the standard input to the report and prints what
comes back, with a splitter and an engine of its own. The standard input is read only if
it is asked for.
-/

namespace InputMask

/-- Everything that stands on a stream, if it is text. -/
def readText (stream : IO.FS.Stream) : IO (Option Text) := do
  let bytes ← stream.readBinToEnd
  return (String.fromUTF8? bytes).map String.toList

/-- Runs the program on strings. -/
def runProgram (args : List String) : IO UInt32 := do
  let words := args.map String.toList
  let needsInput := (Arguments.read? words).any (·.inputs.isEmpty)
  let standardInput ← if needsInput then readText (← IO.getStdin) else pure none
  let outcome := Report.run Regex.engine Arguments.split words standardInput
  IO.print (String.ofList outcome.printed)
  IO.eprint (String.ofList outcome.ending.message)
  return outcome.ending.code.toUInt32

end InputMask

def main (args : List String) : IO UInt32 :=
  InputMask.runProgram args
