/-
# Formulas

A formula is the tree of an arithmetic expression.  Each node has the offset of the token it
comes from: of its operator, its name or its number.

The height of a formula counts the nodes on the longest path from the root, leaves included.
Proofs about formulas go by `Formula.induction`.
-/
import FunctionPlot.Formula.Operator

namespace FunctionPlot

/-- An arithmetic expression. -/
inductive Formula where
  /-- A number. -/
  | constant (value : Float) (position : Nat)
  /-- A named quantity. -/
  | symbol (name : Text) (position : Nat)
  /-- The negation of a formula. -/
  | negation (operand : Formula) (position : Nat)
  /-- Two formulas joined by an operator. -/
  | binary (op : Operator) (left right : Formula) (position : Nat)
  /-- A function applied to arguments. -/
  | call (function : Text) (arguments : List Formula) (position : Nat)
deriving Inhabited

namespace Formula

/-- The offset of the token from which the root comes. -/
def position : Formula → Nat
  | constant _ position => position
  | symbol _ position => position
  | negation _ position => position
  | binary _ _ _ position => position
  | call _ _ position => position

mutual

/-- The number of nodes on the longest path from the root. -/
def height : Formula → Nat
  | constant _ _ => 1
  | symbol _ _ => 1
  | negation operand _ => 1 + operand.height
  | binary _ left right _ => 1 + max left.height right.height
  | call _ arguments _ => 1 + greatestHeight arguments

/-- The greatest height among some formulas; zero if there are none. -/
def greatestHeight : List Formula → Nat
  | [] => 0
  | f :: rest => max f.height (greatestHeight rest)

end

/-- What holds of a formula as soon as it holds of its immediate parts, holds of all formulas. -/
@[elab_as_elim, induction_eliminator]
theorem induction {motive : Formula → Prop}
    (constant : ∀ value position, motive (constant value position))
    (symbol : ∀ name position, motive (symbol name position))
    (negation : ∀ operand position, motive operand → motive (negation operand position))
    (binary : ∀ op left right position, motive left → motive right →
      motive (binary op left right position))
    (call : ∀ function arguments position, (∀ a ∈ arguments, motive a) →
      motive (call function arguments position))
    (f : Formula) : motive f :=
  Formula.rec (motive_1 := motive) (motive_2 := fun arguments => ∀ a ∈ arguments, motive a)
    constant symbol (fun operand position h => negation operand position h)
    (fun op left right position hl hr => binary op left right position hl hr)
    (fun function arguments position h => call function arguments position h)
    (fun _ h => absurd h List.not_mem_nil)
    (fun f rest hf hrest a ha => by
      rcases List.mem_cons.mp ha with rfl | ha
      · exact hf
      · exact hrest a ha)
    f

theorem height_le_greatestHeight {f : Formula} {formulas : List Formula} (h : f ∈ formulas) :
    f.height ≤ greatestHeight formulas := by
  induction formulas with
  | nil => exact absurd h List.not_mem_nil
  | cons g rest ih =>
    simp only [greatestHeight]
    rcases List.mem_cons.mp h with rfl | h
    · exact Nat.le_max_left _ _
    · exact Nat.le_trans (ih h) (Nat.le_max_right _ _)

end Formula

end FunctionPlot
