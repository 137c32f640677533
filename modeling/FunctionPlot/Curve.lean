/-
# Curves given by points

A curve is a list of points, some of which have no height because the function is not defined
there.  It is drawn as one polyline for each of its segments, the maximal runs of defined points,
and an axis is scaled to its bounds.
-/
import FunctionPlot.Interval

namespace FunctionPlot

/-- A point of a curve, or a hole in it. -/
structure SamplePoint where
  /-- The value of the variable. -/
  x : Float
  /-- The value of the function, if it is defined there. -/
  y? : Option Float
deriving DecidableEq

/-- A point of a curve. -/
structure DefinedPoint where
  /-- The value of the variable. -/
  x : Float
  /-- The value of the function. -/
  y : Float
deriving DecidableEq

namespace SamplePoint

/-- The point, unless it is a hole. -/
def defined? (p : SamplePoint) : Option DefinedPoint := p.y?.map fun y => ⟨p.x, y⟩

/-- Whether a point is no hole. -/
def isDefined (p : SamplePoint) : Bool := p.y?.isSome

/-- The line of a point: its two values with a tabulator between them. -/
def toText (p : SamplePoint) : Text :=
  Number.written p.x ++ unit '\t' :: p.y?.elim "undefined" Number.written

end SamplePoint

namespace Curve

/-- The maximal runs of defined points, in order. -/
def segments (points : List SamplePoint) : List (List DefinedPoint) :=
  let pieces := (points.map SamplePoint.defined?).splitOnP Option.isNone
  (pieces.map List.reduceOption).filter (!·.isEmpty)

/-- The smallest interval that holds the heights of all defined points; nothing if there are
none. -/
def bounds (points : List SamplePoint) : Except IntervalError (Option Interval) :=
  match points.filterMap (·.y?) with
  | [] => .ok none
  | heights => (Interval.hull heights).map some

/-- The lines of some points, without a line feed behind the last. -/
def toText (points : List SamplePoint) : Text :=
  Text.joined [unit '\n'] (points.map SamplePoint.toText)

end Curve

end FunctionPlot
