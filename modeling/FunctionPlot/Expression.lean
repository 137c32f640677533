/-
# Expressions

An expression is a function given by its text: the text is read, and the formula is checked
against a symbol table.  After that it can be evaluated any number of times.
-/
import FunctionPlot.Formula.Parser
import FunctionPlot.Formula.Printer
import FunctionPlot.Formula.Value

namespace FunctionPlot

/-- A function given by its text. -/
structure Expression where
  /-- The text. -/
  source : Text
  /-- The formula of the text. -/
  checked : Checked

namespace Expression

/-- The expression of a text. -/
def compile (source : Text) (table : SymbolTable) : Except FormulaError Expression := do
  let f ← Formula.ofText source
  let checked ← f.check table source
  pure ⟨source, checked⟩

/-- The formula of an expression. -/
def root (e : Expression) : Formula := e.checked.root

/-- The symbol table of an expression. -/
def table (e : Expression) : SymbolTable := e.checked.table

/-- The independent variables of an expression, in the order of their first occurrence. -/
def freeVariables (e : Expression) : List Text := e.checked.freeVariables

/-- The value of an expression. -/
def value (e : Expression) (bindings : Bindings) : Except ValueFault Float :=
  e.checked.value bindings

/-- The text of an expression with no more parentheses and blanks than it needs. -/
def toText (e : Expression) : Text := e.root.toText

end Expression

end FunctionPlot
