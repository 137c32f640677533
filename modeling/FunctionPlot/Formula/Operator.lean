/-
# Operators

The five operators of formulas and the signs they are written with.
-/
import FunctionPlot.Text

namespace FunctionPlot

/-- A binary operator. -/
inductive Operator where
  /-- Addition. -/
  | add
  /-- Subtraction, whose sign also serves for negation. -/
  | sub
  /-- Multiplication. -/
  | mul
  /-- Division. -/
  | div
  /-- Raising to a power. -/
  | pow
deriving DecidableEq, Repr

namespace Operator

/-- The sign of an operator. -/
def sign : Operator → CodeUnit
  | add => unit '+'
  | sub => unit '-'
  | mul => unit '*'
  | div => unit '/'
  | pow => unit '^'

/-- The operator with a given sign. -/
def ofSign? (u : CodeUnit) : Option Operator :=
  [add, sub, mul, div, pow].find? (·.sign == u)

theorem ofSign?_sign (op : Operator) : ofSign? op.sign = some op := by
  cases op <;> decide

theorem sign_of_ofSign? {u : CodeUnit} {op : Operator} (h : ofSign? u = some op) :
    op.sign = u := by
  simpa using List.find?_some h

end Operator

end FunctionPlot
