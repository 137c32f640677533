/-
# Plots

A plot is one refresh of the graph of a function: the settings are read, the text of the function
is compiled, the expression is sampled over the range, and the vertical axis gets its range.
Mistakes of the user come back as a refusal at the stage where they are found.
-/
import FunctionPlot.Expression.Sampling
import FunctionPlot.Settings
import FunctionPlot.Settings.Limits

namespace FunctionPlot

/-- What is asked of a plot.  The fields come from outside and may have any shape. -/
structure PlotRequest where
  /-- The text of the function. -/
  function : Input
  /-- The lower end of the range, as a number or as a user types it. -/
  low : Input
  /-- The upper end of the range, as a number or as a user types it. -/
  high : Input
  /-- The number of points. -/
  samples : Input
  /-- The variable that is sampled; the first independent one of the table if this is blank. -/
  sampled : Input
  /-- The symbol table. -/
  table : SymbolTable

/-- The graph of a function. -/
structure Plot where
  /-- The settings that were used. -/
  settings : Settings
  /-- The function. -/
  expression : Expression
  /-- The points. -/
  points : List SamplePoint
  /-- The maximal runs of defined points. -/
  segments : List (List DefinedPoint)
  /-- The range of the heights of the defined points, if there are any. -/
  bounds : Option Interval
  /-- That range with some space above and below. -/
  axis : Option Interval

/-- A mistake of the user. -/
inductive Refusal where
  /-- The settings are refused. -/
  | settings (e : SettingsError)
  /-- The limits of the range are refused. -/
  | limits (e : LimitsError)
  /-- The text is no function. -/
  | formula (e : FormulaError)
deriving DecidableEq

namespace Refusal

/-- The stage at which a mistake is found. -/
def stage : Refusal → Text
  | settings _ => "settings"
  | limits _ => "settings"
  | formula _ => "compile"

/-- The message for a mistake. -/
def message : Refusal → Text
  | settings e => e.message
  | limits e => e.message
  | formula e => e.message

end Refusal

/-- Why there is no plot although the user made no mistake. -/
inductive PlotError where
  /-- An input that must be written as text cannot be written. -/
  | unwritable
  /-- There is no variable to sample. -/
  | noVariable
  /-- The expression cannot be sampled. -/
  | sampling (e : SamplingError)
  /-- The heights have no range. -/
  | interval (e : IntervalError)
deriving DecidableEq

namespace PlotError

/-- The message of an error. -/
def message : PlotError → Text
  | unwritable => "Cannot convert object to primitive value"
  | noVariable => "Registry defines no independent variable to sample"
  | sampling e => e.message
  | interval e => e.message

end PlotError

namespace Plot

/-- The share of the range of the heights that is left free above and below the curve. -/
def space : Float := 0.05

/-- The settings of a request.  As soon as one limit is a text both are read as texts; a missing
one is then the text of its default. -/
def settingsOf (request : PlotRequest) : Except PlotError (Except Refusal Settings) :=
  let settings (low high : Input) : Except Refusal Settings :=
    (Settings.ofFields request.function low high request.samples).mapError .settings
  if request.low.isText || request.high.isText then
    let low := request.low.orElse (.number Settings.default.low)
    let high := request.high.orElse (.number Settings.default.high)
    match low.toText?, high.toText? with
    | some low, some high =>
      match Limits.ofTexts low high with
      | .ok limits => .ok (settings (.number limits.low) (.number limits.high))
      | .error e => .ok (.error (.limits e))
    | _, _ => .error .unwritable
  else .ok (settings request.low request.high)

/-- The variable that a request samples. -/
def variableOf (request : PlotRequest) : Except PlotError Input :=
  if request.sampled.isBlank then
    match request.table.independentVariables with
    | [] => .error .noVariable
    | name :: _ => if name.isEmpty then .error .noVariable else .ok (.text name)
  else .ok request.sampled

/-- Samples an expression over the range of some settings.  What is no text names no variable, but
it must have a text. -/
def sampleOf (settings : Settings) (e : Expression) (sampled : Input) :
    Except PlotError (List SamplePoint) :=
  match sampled.toText? with
  | none => .error .unwritable
  | some name =>
    match if sampled.isText then none else e.freeVariables.head? with
    | some other => .error (.sampling (.otherVariable other name))
    | none =>
      (e.sample name settings.low settings.high (Float.ofNat settings.samples)).mapError .sampling

/-- The plot of an expression. -/
def ofExpression (request : PlotRequest) (settings : Settings) (expression : Expression) :
    Except PlotError Plot := do
  let sampled ← variableOf request
  let points ← sampleOf settings expression sampled
  let bounds ← (Curve.bounds points).mapError .interval
  let axis ← match bounds with
    | none => pure none
    | some bounds => ((bounds.pad space).mapError .interval).map some
  pure { settings, expression, points, segments := Curve.segments points, bounds, axis }

/-- The plot that a request asks for, or a refusal. -/
def ofRequest (request : PlotRequest) : Except PlotError (Except Refusal Plot) :=
  match settingsOf request with
  | .error e => .error e
  | .ok (.error refusal) => .ok (.error refusal)
  | .ok (.ok settings) =>
    match Expression.compile settings.function request.table with
    | .error e => .ok (.error (.formula e))
    | .ok expression => (ofExpression request settings expression).map .ok

end Plot

end FunctionPlot
