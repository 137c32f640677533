/-
# The command line

The arguments are the text of a function, the two limits of the range and the number of points;
all but the first have defaults.  The points go to the standard output, one on each line, and a
mistake of the user goes to the standard error.
-/
import FunctionPlot.Plot

namespace FunctionPlot

namespace CommandLine

/-- What a run of the program leaves behind. -/
structure Outcome where
  /-- The exit code. -/
  exitCode : Nat
  /-- What was written to the standard output. -/
  output : Text
  /-- What was written to the standard error. -/
  errors : Text
deriving DecidableEq, Repr

namespace Outcome

/-- A run that prints a text and succeeds. -/
def success (text : Text) : Outcome := ⟨0, text ++ [unit '\n'], []⟩

/-- A run that prints a message and fails. -/
def failure (message : Text) : Outcome := ⟨1, [], message ++ [unit '\n']⟩

end Outcome

/-- How the program is called. -/
def usage : Text := "Usage: grapher <function> [from] [to] [samples]"

/-- The request that some arguments make. -/
def request (function : Text) (arguments : List Text) : PlotRequest where
  function := .text function
  low := .text ((arguments[0]?).getD (Number.written Settings.default.low))
  high := .text ((arguments[1]?).getD (Number.written Settings.default.high))
  samples := (arguments[2]?).elim .absent fun t => .number (Number.ofCount t)
  sampled := .absent
  table := SymbolTable.standard

/-- Runs the program. -/
def run (arguments : List Text) : Outcome :=
  match arguments with
  | [] => .failure usage
  | function :: rest =>
    if function.isEmpty then .failure usage
    else
      match Plot.ofRequest (request function rest) with
      | .ok (.ok plot) => .success (Curve.toText plot.points)
      | .ok (.error refusal) => .failure refusal.message
      | .error e => .failure e.message

end CommandLine

end FunctionPlot
