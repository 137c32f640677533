/-
# Settings

The settings of a function grapher are the text of the function, the range of its variable and the
number of points.  All of them have defaults.  Settings are read from an input of unknown shape,
and a refusal lists every problem: first those of the single fields, in the order of the fields,
and then that the range is reversed.  The range is looked at as soon as each field has a value of
the right shape, even if that value is refused.
-/
import FunctionPlot.Settings.Input

namespace FunctionPlot

/-- What is wrong with a value. -/
inductive Problem where
  /-- The value has the wrong shape. -/
  | wrongShape (expected received : Text)
  /-- A number must be finite. -/
  | notFinite
  /-- A number must be an integer. -/
  | notInteger
  /-- A number must not be less than the given one. -/
  | tooSmall (least : Nat)
  /-- A number must not be greater than the given one. -/
  | tooLarge (greatest : Nat)
  /-- The lower end of the range must be below the upper one. -/
  | reversed
deriving DecidableEq, Repr

namespace Problem

/-- The message for a problem. -/
def message : Problem → Text
  | wrongShape expected received => "Expected " ++ expected ++ ", received " ++ received
  | notFinite => "Number must be finite"
  | notInteger => "Expected integer, received float"
  | tooSmall least => "Number must be greater than or equal to " ++ Text.ofNat least
  | tooLarge greatest => "Number must be less than or equal to " ++ Text.ofNat greatest
  | reversed => "From is greater than To"

end Problem

/-- A problem with the name of the field that has it. -/
structure Issue where
  /-- The field, or `(root)` for the settings as a whole. -/
  path : Text
  /-- What is wrong. -/
  message : Text
deriving DecidableEq, Repr

/-- A refusal of settings. -/
structure SettingsError where
  /-- All that is wrong. -/
  issues : List Issue
deriving DecidableEq, Repr

namespace SettingsError

/-- The message of a refusal. -/
def message (e : SettingsError) : Text :=
  "Invalid settings: " ++ Text.joined "; " (e.issues.map fun i => i.path ++ ": " ++ i.message)

end SettingsError

/-- The settings of a function grapher. -/
structure Settings where
  /-- The text of the function. -/
  function : Text
  /-- The lower end of the range. -/
  low : Float
  /-- The upper end of the range. -/
  high : Float
  /-- The number of points. -/
  samples : Nat
deriving DecidableEq

namespace Settings

/-- The greatest number of points. -/
def maxSamples : Nat := 100000

/-- The settings that hold where nothing is given. -/
def default : Settings := ⟨"x", 0, 10, 501⟩

instance : Inhabited Settings := ⟨default⟩

/-- The outcome of looking at one field: its problems, and its value if it has the right shape. -/
structure Look (α : Type) where
  /-- What is wrong with the field. -/
  problems : List Problem
  /-- The value. -/
  value? : Option α

/-- Looks at a field that must hold a text. -/
def lookText (default : Text) : Input → Look Text
  | .absent => ⟨[], some default⟩
  | .text value => ⟨[], some value⟩
  | input => ⟨[.wrongShape "string" input.shape], none⟩

/-- Looks at a field that must hold a number with no problems. -/
def lookNumber (problems : Float → List Problem) (default : Float) : Input → Look Float
  | .absent => ⟨[], some default⟩
  | .number value =>
    if value.isNaN then ⟨[.wrongShape "number" "nan"], none⟩ else ⟨problems value, some value⟩
  | input => ⟨[.wrongShape "number" input.shape], none⟩

/-- The problems of an end of the range. -/
def limitProblems (value : Float) : List Problem := if value.isFinite then [] else [.notFinite]

/-- The problems of a number of points. -/
def samplesProblems (value : Float) : List Problem :=
  (if Number.isInteger value then [] else [.notInteger])
    ++ (if value < 2 then [.tooSmall 2] else [])
    ++ (if Float.ofNat maxSamples < value then [.tooLarge maxSamples] else [])

/-- The issues of a field with some problems. -/
def issuesAt (path : Text) (problems : List Problem) : List Issue :=
  problems.map fun problem => ⟨path, problem.message⟩

/-- The settings from the inputs of their fields. -/
def ofFields (function low high samples : Input) : Except SettingsError Settings :=
  let function := lookText default.function function
  let low := lookNumber limitProblems default.low low
  let high := lookNumber limitProblems default.high high
  let samples := lookNumber samplesProblems (Float.ofNat default.samples) samples
  let issues :=
    issuesAt "function" function.problems ++ issuesAt "from" low.problems
      ++ issuesAt "to" high.problems ++ issuesAt "samples" samples.problems
  match function.value?, low.value?, high.value?, samples.value? with
  | some function, some low, some high, some samples =>
    let issues := issues ++ if low < high then [] else issuesAt "from" [.reversed]
    if issues.isEmpty then .ok ⟨function, low, high, Number.toNat samples⟩ else .error ⟨issues⟩
  | _, _, _, _ => .error ⟨issues⟩

/-- The settings of an input.  Fields with other names are ignored. -/
def ofInput : Input → Except SettingsError Settings
  | .absent => ofFields .absent .absent .absent .absent
  | .record fields =>
    ofFields (.field fields "function") (.field fields "from") (.field fields "to")
      (.field fields "samples")
  | input => .error ⟨issuesAt "(root)" [.wrongShape "object" input.shape]⟩

/-- The settings as an input. -/
def toInput (s : Settings) : Input :=
  .record
    [("function", .text s.function), ("from", .number s.low), ("to", .number s.high),
     ("samples", .number (Float.ofNat s.samples))]

end Settings

end FunctionPlot
