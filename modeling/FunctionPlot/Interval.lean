/-
# Closed intervals

A closed interval of numbers, infinite ends included, to which an axis is scaled.  Its ends are in
order, so neither of them is `nan`.
-/
import FunctionPlot.Number.Written

namespace FunctionPlot

/-- A closed interval. -/
structure Interval where
  /-- The lower end. -/
  low : Float
  /-- The upper end. -/
  high : Float
  /-- The ends are in order. -/
  low_le_high : low ≤ high
deriving DecidableEq

/-- Why there is no interval. -/
inductive IntervalError where
  /-- An end is `nan`. -/
  | notANumber
  /-- The lower end is above the upper one. -/
  | reversed (low high : Float)
  /-- There is no value to be held. -/
  | noValues
deriving DecidableEq

namespace IntervalError

/-- The message of an error. -/
def message : IntervalError → Text
  | notANumber => "Interval bounds must be numbers, got NaN"
  | reversed low high =>
    "Empty interval: " ++ Number.written low ++ " is above " ++ Number.written high
  | noValues => "Cannot bound an empty set of values"

end IntervalError

namespace Interval

/-- The interval with the given ends. -/
def ofEnds (low high : Float) : Except IntervalError Interval :=
  if low.isNaN || high.isNaN then .error .notANumber
  else if h : low ≤ high then .ok ⟨low, high, h⟩
  else .error (.reversed low high)

/-- The smallest interval that holds some numbers. -/
def hull (values : List Float) : Except IntervalError Interval :=
  let low := values.foldl Number.least Number.infinity
  let high := values.foldl Number.greatest (-Number.infinity)
  if high < low then .error .noValues else ofEnds low high

/-- The length of an interval. -/
def size (i : Interval) : Float := i.high - i.low

/-- By how much `pad` widens an interval on each side: a fraction of its length, or of its
magnitude if it is a single point, or one if that is nothing. -/
def margin (i : Interval) (fraction : Float) : Float :=
  if 0 < i.size then i.size * fraction
  else
    let share := i.low.abs * fraction
    if share == 0 || share.isNaN then 1 else share

/-- The interval widened by its margin on both sides. -/
def pad (i : Interval) (fraction : Float) : Except IntervalError Interval :=
  ofEnds (i.low - i.margin fraction) (i.high + i.margin fraction)

/-- The text of an interval. -/
def toText (i : Interval) : Text :=
  "[" ++ Number.written i.low ++ ", " ++ Number.written i.high ++ "]"

end Interval

end FunctionPlot
