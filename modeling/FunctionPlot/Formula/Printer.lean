/-
# From formulas to text

A formula is written with only those parentheses that the grammar needs.  Every formula has a
binding strength, by the grammar level at which its text is read, and each place in a formula
takes texts of some strength and more; a part that is too weak for its place is put into
parentheses.
-/
import FunctionPlot.Formula
import FunctionPlot.Number.Written

namespace FunctionPlot

/-- How tightly the text of a formula is bound together; the weakest comes first. -/
inductive Strength where
  /-- Sums and differences. -/
  | additive
  /-- Products and quotients. -/
  | multiplicative
  /-- Negations and numbers with a minus sign. -/
  | unary
  /-- Powers. -/
  | power
  /-- Everything that needs no parentheses anywhere. -/
  | atom
deriving DecidableEq, Repr

namespace Strength

/-- The rank of a strength, greater for tighter ones. -/
def rank : Strength → Nat
  | additive => 1
  | multiplicative => 2
  | unary => 3
  | power => 4
  | atom => 5

/-- The next tighter strength. -/
def next : Strength → Strength
  | additive => multiplicative
  | multiplicative => unary
  | unary => power
  | power => atom
  | atom => atom

instance : LT Strength := ⟨fun a b => a.rank < b.rank⟩

instance (a b : Strength) : Decidable (a < b) := inferInstanceAs (Decidable (a.rank < b.rank))

end Strength

namespace Operator

/-- The strength of the formulas that an operator makes. -/
def strength : Operator → Strength
  | add => .additive
  | sub => .additive
  | mul => .multiplicative
  | div => .multiplicative
  | pow => .power

/-- The strength that an operator needs on its left.  A power is no base of a power. -/
def leftStrength : Operator → Strength
  | pow => .atom
  | op => op.strength

/-- The strength that an operator needs on its right.  The exponent of a power may be a negation;
the other operators do not group to the right. -/
def rightStrength : Operator → Strength
  | pow => .unary
  | op => op.strength.next

/-- The text between the two sides of an operator. -/
def spaced : Operator → Text
  | pow => [pow.sign]
  | op => [unit ' ', op.sign, unit ' ']

end Operator

namespace Formula

/-- The strength of the text of a formula. -/
def strength : Formula → Strength
  | constant value _ => if Number.isNegative value then .unary else .atom
  | symbol _ _ => .atom
  | negation _ _ => .unary
  | binary op _ _ _ => op.strength
  | call _ _ _ => .atom

/-- The text of a part of the given strength in a place that needs another one. -/
def placed (needed actual : Strength) (text : Text) : Text :=
  if actual < needed then unit '(' :: text ++ [unit ')'] else text

mutual

/-- The text of a formula. -/
def toText : Formula → Text
  | constant value _ => Number.written value
  | symbol name _ => name
  | negation operand _ => unit '-' :: placed .unary operand.strength operand.toText
  | binary op left right _ =>
    placed op.leftStrength left.strength left.toText ++ op.spaced
      ++ placed op.rightStrength right.strength right.toText
  | call function arguments _ =>
    function ++ unit '(' :: Text.joined ", " (toTexts arguments) ++ [unit ')']

/-- The texts of some formulas. -/
def toTexts : List Formula → List Text
  | [] => []
  | f :: rest => f.toText :: toTexts rest

end

@[simp] theorem toTexts_eq_map (formulas : List Formula) :
    toTexts formulas = formulas.map toText := by
  induction formulas with
  | nil => rfl
  | cons f rest ih => simp only [toTexts, List.map_cons, ih]

end Formula

end FunctionPlot
