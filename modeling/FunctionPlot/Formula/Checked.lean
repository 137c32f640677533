/-
# Formulas checked against a symbol table

A formula is checked against a symbol table from left to right.  Every symbol must be a variable
of the table, and every call must be of a function of the table with as many arguments as the
function takes.  A check that succeeds gives the free variables: the independent variables that
occur in the formula, in the order of their first occurrence.
-/
import FunctionPlot.Formula
import FunctionPlot.Formula.Error
import FunctionPlot.Symbols

namespace FunctionPlot

/-- A formula all of whose names have a meaning. -/
structure Checked where
  /-- The formula. -/
  root : Formula
  /-- The table that gives the meanings. -/
  table : SymbolTable
  /-- The independent variables of the formula, in the order of their first occurrence. -/
  freeVariables : List Text

namespace Formula

/-- Adds a name to a list of names unless it is there. -/
def record (seen : List Text) (name : Text) : List Text :=
  if name ∈ seen then seen else seen ++ [name]

/-- Checks the name of a variable. -/
def checkSymbol (table : SymbolTable) (source : Text) (name : Text) (position : Nat)
    (seen : List Text) : Except FormulaError (List Text) :=
  match table.variableSymbol? name with
  | none => .error ⟨.unknownName name .quantity, position, source⟩
  | some meaning => .ok (if meaning.isIndependent then record seen name else seen)

/-- Checks the name of a function and the number of its arguments. -/
def checkCall (table : SymbolTable) (source : Text) (name : Text) (count position : Nat) :
    Except FormulaError Unit :=
  match table.functionSymbol? name with
  | none => .error ⟨.unknownName name .function, position, source⟩
  | some function =>
    if count = function.arity then .ok ()
    else .error ⟨.wrongArity name function.arity count, position, source⟩

mutual

/-- Checks a formula and records its independent variables behind those already seen. -/
def checkFrom (table : SymbolTable) (source : Text) :
    Formula → List Text → Except FormulaError (List Text)
  | constant _ _, seen => .ok seen
  | symbol name position, seen => checkSymbol table source name position seen
  | negation operand _, seen => checkFrom table source operand seen
  | binary _ left right _, seen => do
    let seen ← checkFrom table source left seen
    checkFrom table source right seen
  | call function arguments position, seen => do
    checkCall table source function arguments.length position
    checkAllFrom table source arguments seen

/-- Checks some formulas in turn. -/
def checkAllFrom (table : SymbolTable) (source : Text) :
    List Formula → List Text → Except FormulaError (List Text)
  | [], seen => .ok seen
  | f :: rest, seen => do
    let seen ← checkFrom table source f seen
    checkAllFrom table source rest seen

end

/-- Checks a formula; the source is shown by error messages. -/
def check (f : Formula) (table : SymbolTable) (source : Text) : Except FormulaError Checked := do
  let freeVariables ← checkFrom table source f []
  pure ⟨f, table, freeVariables⟩

end Formula

end FunctionPlot
