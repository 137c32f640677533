/-
# Inputs of unknown shape

Settings come from outside and may have any shape: a value may be missing, and a number may stand
where a text belongs.  An `Input` is such a value before it is looked at.
-/
import FunctionPlot.Number.Written

namespace FunctionPlot

/-- A value of unknown shape. -/
inductive Input where
  /-- A value that is left out. -/
  | absent
  /-- A value that is given as empty. -/
  | null
  /-- A truth value. -/
  | boolean (value : Bool)
  /-- A number. -/
  | number (value : Float)
  /-- A text. -/
  | text (value : Text)
  /-- A list of values. -/
  | list (items : List Input)
  /-- Named values. -/
  | record (fields : List (Text × Input))
deriving Inhabited

namespace Input

/-- The word for the shape of an input. -/
def shape : Input → Text
  | absent => "undefined"
  | null => "null"
  | boolean _ => "boolean"
  | number value => if value.isNaN then "nan" else "number"
  | text _ => "string"
  | list _ => "array"
  | record _ => "object"

/-- Whether an input is left out or given as empty. -/
def isMissing : Input → Bool
  | absent => true
  | null => true
  | _ => false

/-- Whether an input is a text. -/
def isText : Input → Bool
  | text _ => true
  | _ => false

/-- Whether an input says nothing: it is missing or false, zero, `nan` or an empty text. -/
def isBlank : Input → Bool
  | absent => true
  | null => true
  | boolean value => !value
  | number value => value == 0 || value.isNaN
  | text value => value.isEmpty
  | list _ => false
  | record _ => false

/-- The input, or another one if it is missing. -/
def orElse (input default : Input) : Input := if input.isMissing then default else input

/-- The value of a field of a record; it is left out if the record has no such field. -/
def field (fields : List (Text × Input)) (name : Text) : Input :=
  ((fields.find? (·.1 == name)).map (·.2)).getD absent

/-- The name of a field that takes the place of the way in which its record is written. -/
def writer : Text := "toString"

mutual

/-- An input written as text.  A list is written as its items with commas between them, missing
items as nothing, and a record without looking at its fields.  A record with a field in place of
the way in which it is written cannot be written, nor can a list with such an item. -/
def toText? : Input → Option Text
  | absent => some "undefined"
  | null => some "null"
  | boolean value => some (if value then Text.ofString "true" else Text.ofString "false")
  | number value => some (Number.written value)
  | text value => some value
  | list items => (itemTexts? items).map (Text.joined [unit ','])
  | record fields => if fields.any (·.1 == writer) then none else some "[object Object]"

/-- The texts of the items of a list. -/
def itemTexts? : List Input → Option (List Text)
  | [] => some []
  | item :: rest => do
    let text ← if item.isMissing then some [] else item.toText?
    let texts ← itemTexts? rest
    pure (text :: texts)

end

end Input

end FunctionPlot
