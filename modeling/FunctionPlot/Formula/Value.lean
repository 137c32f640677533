/-
# Values of formulas

A formula has a value under a symbol table and a binding of its independent variables.  Parts are
evaluated from left to right, and the first part without a value is the reason why the whole has
none.  Every sum, product, quotient, power, function value and bound number must be finite.
-/
import FunctionPlot.Formula.Checked

namespace FunctionPlot

/-- The numbers that names are bound to. -/
abbrev Bindings := Text → Option Float

namespace Bindings

/-- The binding of a single name. -/
def single (name : Text) (value : Float) : Bindings :=
  fun other => if other = name then some value else none

end Bindings

/-- Why a formula has no value. -/
inductive ValueFault where
  /-- The operation at this offset has no value at its arguments. -/
  | domain (fault : DomainFault) (position : Nat)
  /-- A name that is no variable of the table. -/
  | unknownVariable (name : Text)
  /-- A name that is no function of the table. -/
  | unknownFunction (name : Text)
  /-- An independent variable that is not bound. -/
  | unbound (name : Text)
  /-- A broken rule. -/
  | broken (message : Text)
deriving DecidableEq, Repr

namespace ValueFault

/-- The message for a fault. -/
def message : ValueFault → Text
  | domain fault _ => fault.message
  | unknownVariable name => "Variable " ++ name ++ " is not registered"
  | unknownFunction name => "Function " ++ name ++ " is not registered"
  | unbound name => "No binding for variable: " ++ name
  | broken message => message

end ValueFault

/-- A number that must be finite. -/
def finite (value : Float) (position : Nat) : Except ValueFault Float :=
  if value.isFinite then .ok value else .error (.domain .notFinite position)

namespace Operator

/-- The value of an operation on two numbers. -/
def apply (op : Operator) (left right : Float) (position : Nat) : Except ValueFault Float :=
  match op with
  | add => finite (left + right) position
  | sub => finite (left - right) position
  | mul => finite (left * right) position
  | div =>
    if right == 0 then .error (.domain .divisionByZero position)
    else finite (left / right) position
  | pow =>
    if left < 0 && !Number.isInteger right then .error (.domain .invalidPower position)
    else finite (Number.power left right) position

end Operator

namespace SymbolTable

/-- The value of a variable.  A constant is taken as it is. -/
def variableValue (table : SymbolTable) (bindings : Bindings) (name : Text) (position : Nat) :
    Except ValueFault Float :=
  match table.variableSymbol? name with
  | none => .error (.unknownVariable name)
  | some (.constant value _) => .ok value
  | some (.independent _) =>
    match bindings name with
    | none => .error (.unbound name)
    | some value => finite value position

/-- The value of a function at some arguments. -/
def callValue (table : SymbolTable) (name : Text) (arguments : List Float) (position : Nat) :
    Except ValueFault Float :=
  match table.functionSymbol? name with
  | none => .error (.unknownFunction name)
  | some function =>
    match function.rule arguments with
    | .ok value => finite value position
    | .error (.domain fault) => .error (.domain fault position)
    | .error (.broken message) => .error (.broken message)

end SymbolTable

namespace Formula

mutual

/-- The value of a formula. -/
def value (table : SymbolTable) (bindings : Bindings) : Formula → Except ValueFault Float
  | constant value _ => .ok value
  | symbol name position => table.variableValue bindings name position
  | negation operand _ => do
    let x ← value table bindings operand
    pure (-x)
  | binary op left right position => do
    let x ← value table bindings left
    let y ← value table bindings right
    op.apply x y position
  | call function arguments position => do
    let xs ← values table bindings arguments
    table.callValue function xs position

/-- The values of some formulas. -/
def values (table : SymbolTable) (bindings : Bindings) :
    List Formula → Except ValueFault (List Float)
  | [] => .ok []
  | f :: rest => do
    let x ← value table bindings f
    let xs ← values table bindings rest
    pure (x :: xs)

end

end Formula

namespace Checked

/-- The value of a checked formula. -/
def value (f : Checked) (bindings : Bindings) : Except ValueFault Float :=
  f.root.value f.table bindings

end Checked

end FunctionPlot
