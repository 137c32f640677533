/-
# Symbol tables

A symbol table gives meaning to the names of a formula: some name functions, some name variables.
A function has a number of arguments and a rule, which gives a number or says why there is none.
A variable is either independent, to be bound to a number for each evaluation, or a constant.

The entries of a table have an order, which decides what is the first independent variable.
Entering a name a second time keeps its place, and it changes the meaning of no other name
(`Entries.get?_enter`).
-/
import FunctionPlot.Number.Written

namespace FunctionPlot

/-- Why an operation has no value at its arguments. -/
inductive DomainFault where
  /-- A division by zero. -/
  | divisionByZero
  /-- A power of a negative base with an exponent that is no integer. -/
  | invalidPower
  /-- A logarithm of a number that is not positive. -/
  | logarithm
  /-- A square root of a negative number. -/
  | squareRoot
  /-- A value that is not finite. -/
  | notFinite
deriving DecidableEq, Repr

namespace DomainFault

/-- The message for a fault. -/
def message : DomainFault → Text
  | divisionByZero => "Division by zero"
  | invalidPower => "Negative base raised to a non-integer power"
  | logarithm => "Logarithm of a non-positive number"
  | squareRoot => "Square root of a negative number"
  | notFinite => "Result is not a finite number"

end DomainFault

/-- Why the rule of a function gives no number. -/
inductive RuleFault where
  /-- The arguments are outside of the domain of the function. -/
  | domain (fault : DomainFault)
  /-- The rule itself is broken. -/
  | broken (message : Text)
deriving DecidableEq, Repr

/-- What a function does with its arguments. -/
abbrev Rule := List Float → Except RuleFault Float

/-- The meaning of the name of a function. -/
structure FunctionSymbol where
  /-- How many arguments a call must have.  No call can have a negative number of them. -/
  arity : Int
  /-- What the function is, for the reader. -/
  description : Text
  /-- What the function does with its arguments. -/
  rule : Rule

/-- The meaning of the name of a variable. -/
inductive VariableSymbol where
  /-- A variable that is bound to a number for each evaluation. -/
  | independent (description : Text)
  /-- A name for a number. -/
  | constant (value : Float) (description : Text)
deriving DecidableEq

namespace VariableSymbol

/-- Whether a variable is independent. -/
def isIndependent : VariableSymbol → Bool
  | independent _ => true
  | constant _ _ => false

end VariableSymbol

/-- Names with their meanings, in order. -/
abbrev Entries (α : Type) := List (Text × α)

namespace Entries

variable {α : Type}

/-- The meaning of a name. -/
def get? (entries : Entries α) (name : Text) : Option α :=
  (entries.find? (·.1 == name)).map (·.2)

/-- Gives a name a meaning, in its old place or at the end. -/
def enter (entries : Entries α) (name : Text) (meaning : α) : Entries α :=
  match entries with
  | [] => [(name, meaning)]
  | e :: rest =>
    if e.1 = name then (name, meaning) :: rest else e :: enter rest name meaning

/-- The name that a table cannot hold. -/
def reserved : Text := "__proto__"

/-- Enters several names in turn.  The reserved name is skipped. -/
def enterAll (entries : Entries α) (more : List (Text × α)) : Entries α :=
  more.foldl (fun es e => if e.1 = reserved then es else es.enter e.1 e.2) entries

@[simp] theorem get?_nil (name : Text) : get? ([] : Entries α) name = none := rfl

theorem get?_cons (e : Text × α) (rest : Entries α) (name : Text) :
    get? (e :: rest) name = if e.1 = name then some e.2 else rest.get? name := by
  simp only [get?, List.find?_cons]
  by_cases h : e.1 = name
  · simp [h]
  · simp [h, beq_false_of_ne h]

/-- After a name is entered it has its new meaning, and all others keep theirs. -/
theorem get?_enter (entries : Entries α) (name other : Text) (meaning : α) :
    (entries.enter name meaning).get? other
      = if name = other then some meaning else entries.get? other := by
  induction entries with
  | nil => simp [enter, get?_cons]
  | cons e rest ih =>
    by_cases h : e.1 = name
    · subst h
      by_cases hn : e.1 = other <;> simp [enter, get?_cons, hn]
    · by_cases hn : name = other
      · subst hn
        simp [enter, h, get?_cons, ih]
      · simp [enter, h, get?_cons, ih, hn]

end Entries

/-- The meanings of names. -/
structure SymbolTable where
  /-- The functions. -/
  functionEntries : Entries FunctionSymbol
  /-- The variables. -/
  variableEntries : Entries VariableSymbol

/-! ### The functions and variables of the standard table -/

namespace Rule

/-- The argument with the given index, or `nan` if there are fewer arguments. -/
def argument (arguments : List Float) (index : Nat) : Float := arguments.getD index Number.nan

/-- The rule of a function of one argument with no faults of its own. -/
def ofUnary (f : Float → Float) : Rule := fun arguments => .ok (f (argument arguments 0))

/-- The rule of a function of two arguments with no faults of its own. -/
def ofBinary (f : Float → Float → Float) : Rule := fun arguments =>
  .ok (f (argument arguments 0) (argument arguments 1))

/-- The natural logarithm, of positive numbers. -/
def logarithm : Rule := fun arguments =>
  let x := argument arguments 0
  if x ≤ 0 then .error (.domain .logarithm) else .ok x.log

/-- The square root, of numbers that are not negative. -/
def squareRoot : Rule := fun arguments =>
  let x := argument arguments 0
  if x < 0 then .error (.domain .squareRoot) else .ok x.sqrt

/-- The same number whatever the arguments are. -/
def always (value : Float) : Rule := fun _ => .ok value

end Rule

namespace SymbolTable

/-- The ratio of the circumference of a circle to its diameter. -/
def pi : Float := 3.141592653589793

/-- The base of the natural logarithm. -/
def euler : Float := 2.718281828459045

/-- The functions of the standard table. -/
def standardFunctions : List (Text × FunctionSymbol) :=
  [("sin", ⟨1, "Sine (radians)", .ofUnary Float.sin⟩),
   ("cos", ⟨1, "Cosine (radians)", .ofUnary Float.cos⟩),
   ("tan", ⟨1, "Tangent (radians)", .ofUnary Float.tan⟩),
   ("exp", ⟨1, "Natural exponential", .ofUnary Float.exp⟩),
   ("ln", ⟨1, "Natural logarithm", .logarithm⟩),
   ("sqrt", ⟨1, "Square root", .squareRoot⟩),
   ("abs", ⟨1, "Absolute value", .ofUnary Float.abs⟩),
   ("min", ⟨2, "Smaller of two values", .ofBinary Number.least⟩),
   ("max", ⟨2, "Larger of two values", .ofBinary Number.greatest⟩)]

/-- The variables of the standard table. -/
def standardVariables : List (Text × VariableSymbol) :=
  [("x", .independent "Independent variable"),
   ("pi", .constant pi "Ratio of a circle's circumference to its diameter"),
   ("e", .constant euler "Euler's number")]

/-- The table of some functions and variables. -/
def ofLists (functions : List (Text × FunctionSymbol)) (quantities : List (Text × VariableSymbol)) :
    SymbolTable :=
  ⟨Entries.enterAll [] functions, Entries.enterAll [] quantities⟩

/-- The table that is used where none is given. -/
def standard : SymbolTable := ofLists standardFunctions standardVariables

/-- The meaning of the name of a function. -/
def functionSymbol? (table : SymbolTable) (name : Text) : Option FunctionSymbol :=
  table.functionEntries.get? name

/-- The meaning of the name of a variable. -/
def variableSymbol? (table : SymbolTable) (name : Text) : Option VariableSymbol :=
  table.variableEntries.get? name

/-- The names of the independent variables, in order. -/
def independentVariables (table : SymbolTable) : List Text :=
  (table.variableEntries.filter (·.2.isIndependent)).map (·.1)

end SymbolTable

end FunctionPlot
