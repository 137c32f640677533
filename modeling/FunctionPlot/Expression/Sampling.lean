/-
# Sampling expressions

An expression of one variable is evaluated at evenly spaced values of the variable, both ends of
the range included.  The values come from interpolation between the ends and not from adding up
steps, so that ranges wider than the greatest number are sampled evenly too, and the last value is
the upper end itself.
-/
import FunctionPlot.Curve
import FunctionPlot.Expression

namespace FunctionPlot

/-- Why an expression is not sampled. -/
inductive SamplingError where
  /-- The ends of the range are not finite or not in order. -/
  | invalidRange (low high : Float)
  /-- The number of points is no integer that is at least two. -/
  | invalidCount (count : Float)
  /-- The expression has another free variable than the sampled one. -/
  | otherVariable (name sampled : Text)
  /-- An evaluation failed for another reason than its arguments. -/
  | evaluation (fault : ValueFault)
deriving DecidableEq

namespace SamplingError

/-- The message of an error. -/
def message : SamplingError → Text
  | invalidRange low high =>
    "Invalid range: low (" ++ Number.written low ++ ") must be finite and less than high ("
      ++ Number.written high ++ ")"
  | invalidCount count =>
    "Invalid sample count: " ++ Number.written count ++ " (need an integer of at least 2)"
  | otherVariable name sampled =>
    "Expression depends on " ++ name ++ ", but only " ++ sampled ++ " is sampled"
  | evaluation fault => fault.message

end SamplingError

namespace Expression

/-- The value of the variable at step `i` of `steps` from one end of a range to the other. -/
def gridValue (low high : Float) (steps i : Nat) : Float :=
  if i = steps then high
  else
    let t := Float.ofNat i / Float.ofNat steps
    low * (1 - t) + high * t

/-- The point of an expression at one value of a variable: a hole if the value is outside of the
domain. -/
def pointAt (e : Expression) (name : Text) (x : Float) : Except SamplingError SamplePoint :=
  match e.value (.single name x) with
  | .ok y => .ok ⟨x, some y⟩
  | .error (.domain _ _) => .ok ⟨x, none⟩
  | .error fault => .error (.evaluation fault)

/-- Samples an expression at `count` values of a variable. -/
def sample (e : Expression) (name : Text) (low high count : Float) :
    Except SamplingError (List SamplePoint) :=
  if !low.isFinite || !high.isFinite || high ≤ low then .error (.invalidRange low high)
  else if !Number.isInteger count || count < 2 then .error (.invalidCount count)
  else
    match e.freeVariables.find? (· ≠ name) with
    | some other => .error (.otherVariable other name)
    | none =>
      let points := Number.toNat count
      (List.range points).mapM fun i => e.pointAt name (gridValue low high (points - 1) i)

end Expression

end FunctionPlot
