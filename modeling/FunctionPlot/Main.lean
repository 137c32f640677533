/-
# The program

Prints the points of the function that is given on the command line.
-/
import FunctionPlot.CommandLine

open FunctionPlot

/-- Runs the command line on the arguments of the process. -/
def main (arguments : List String) : IO UInt32 := do
  let outcome := CommandLine.run (arguments.map Text.ofString)
  IO.print outcome.output.toString
  IO.eprint outcome.errors.toString
  pure outcome.exitCode.toUInt32
