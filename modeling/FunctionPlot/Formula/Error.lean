/-
# Errors in the text of a function

A text that is no function of the known symbols is refused for one cause at one offset.  The
message of an error gives the reason and shows the place of the offset in the source.
-/
import FunctionPlot.Text.Place

namespace FunctionPlot

/-- The two roles in which a name can stand in a formula. -/
inductive Role where
  /-- The name of a variable. -/
  | quantity
  /-- The name of a function that is called. -/
  | function
deriving DecidableEq, Repr

namespace Role

/-- The word for a role. -/
def word : Role → Text
  | quantity => "variable"
  | function => "function"

end Role

/-- Why a text is refused. -/
inductive Cause where
  /-- A cause without further data. -/
  | other (reason : Text)
  /-- A character that starts no token. -/
  | strayCharacter (character : Text)
  /-- Something else stands where `expected` must stand.  The reason says so unless another one
  is given. -/
  | mismatch (expected found : Text) (reason? : Option Text)
  /-- A name that the symbol table does not have in this role. -/
  | unknownName (name : Text) (role : Role)
  /-- A function called with a wrong number of arguments. -/
  | wrongArity (name : Text) (expected got : Int)
deriving DecidableEq, Repr

namespace Cause

/-- The reason as the first line of a message gives it. -/
def reason : Cause → Text
  | other reason => reason
  | strayCharacter character => "Unexpected character: " ++ character
  | mismatch expected found none => "Expected " ++ expected ++ " but found " ++ found
  | mismatch _ _ (some reason) => reason
  | unknownName name role => "Unknown " ++ role.word ++ ": " ++ name
  | wrongArity name expected got =>
    name ++ "() takes " ++ Text.ofInt expected ++ " argument"
      ++ (if expected = 1 then [] else [unit 's']) ++ " but got " ++ Text.ofInt got

end Cause

/-- An error in the text of a function. -/
structure FormulaError where
  /-- Why the text is refused. -/
  cause : Cause
  /-- Where, as an offset into the source. -/
  position : Nat
  /-- The text from which the message shows a line. -/
  source : Text
deriving DecidableEq, Repr

namespace FormulaError

/-- The reason as the first line of the message gives it. -/
def reason (e : FormulaError) : Text := e.cause.reason

/-- The place of an error in its source. -/
def place (e : FormulaError) : Place := Place.ofOffset e.source e.position

/-- The message of an error: the reason and the place. -/
def message (e : FormulaError) : Text := e.place.report e.reason

end FormulaError

end FunctionPlot
