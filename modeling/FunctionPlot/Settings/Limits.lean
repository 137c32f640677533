/-
# Limits as a user types them

The two ends of the range may come as texts.  A limit is a numeral behind at most one sign with
blanks around it, and its number must be finite.
-/
import FunctionPlot.Number.Numeral

namespace FunctionPlot

/-- The part of the limits that is refused. -/
inductive LimitField where
  /-- The lower limit. -/
  | low
  /-- The upper limit. -/
  | high
  /-- The two limits together. -/
  | range
deriving DecidableEq, Repr

namespace LimitField

/-- The name of a part of the limits. -/
def name : LimitField → Text
  | low => "from"
  | high => "to"
  | range => "range"

/-- The name of a part of the limits at the front of a message. -/
def label : LimitField → Text
  | low => "From"
  | high => "To"
  | range => "Range"

end LimitField

/-- A refusal of limits. -/
structure LimitsError where
  /-- What is refused. -/
  field : LimitField
  /-- Why. -/
  message : Text
deriving DecidableEq, Repr

namespace LimitsError

/-- A limit is no finite number. -/
def notANumber (field : LimitField) : LimitsError :=
  ⟨field, field.label ++ " is not a valid number"⟩

/-- The lower limit is not below the upper one. -/
def reversed : LimitsError := ⟨.range, "From is greater than To"⟩

end LimitsError

/-- The limits of a range. -/
structure Limits where
  /-- The lower limit. -/
  low : Float
  /-- The upper limit. -/
  high : Float
deriving DecidableEq

namespace Limits

/-- The number of a limit. -/
def number? (t : Text) : Option Float := (Number.ofSigned? t.trim).filter Float.isFinite

/-- The number of a limit; a refusal names its part of the limits. -/
def read (field : LimitField) (t : Text) : Except LimitsError Float :=
  match number? t with
  | some value => .ok value
  | none => .error (.notANumber field)

/-- The limits that two texts stand for. -/
def ofTexts (low high : Text) : Except LimitsError Limits := do
  let low ← read .low low
  let high ← read .high high
  if high ≤ low then .error .reversed else .ok ⟨low, high⟩

end Limits

end FunctionPlot
