/-
# The shortest decimal of a number

Every positive finite number `m * 2 ^ q` is the nearest number to all the reals of an interval
around it, its *rounding interval*.  The shortest decimal of the number is the one in that
interval with its last place as far left as possible, and among those the nearest to the number.
It has the fewest digits that identify the number.

On each decimal place only the two neighbours of the number matter, so the search goes from the
place of the leading digit to the right until a neighbour falls into the interval.  The number
itself is a decimal with its last place at `min q 0`, where the search ends at the latest.
-/
import FunctionPlot.Number.Decimal

namespace FunctionPlot

/-- A positive finite number `significand * 2 ^ exponent` in canonical form. -/
structure Magnitude where
  /-- The significand, below `2 ^ 53`. -/
  significand : Nat
  /-- The exponent, at least `-1074`. -/
  exponent : Int
deriving DecidableEq, Repr

/-- A number together with the reals to which it is the nearest number. -/
structure RoundingInterval where
  /-- The number itself. -/
  value : Rat
  /-- The lower end. -/
  low : Rat
  /-- The upper end. -/
  high : Rat
  /-- Whether the ends belong to the interval. -/
  closed : Bool
deriving DecidableEq, Repr

namespace RoundingInterval

/-- The reals that round to the number of the interval. -/
def Contains (i : RoundingInterval) (x : Rat) : Prop :=
  i.low < x ∧ x < i.high ∨ i.closed = true ∧ i.low ≤ x ∧ x ≤ i.high

instance (i : RoundingInterval) (x : Rat) : Decidable (i.Contains x) :=
  inferInstanceAs (Decidable (_ ∨ _))

/-- The decimal with last place `e` in the interval that is nearest to its number, if there is
one; of two equally near ones the even one. -/
def neighbour? (i : RoundingInterval) (e : Int) : Option Nat :=
  let unit := (10 : Rat) ^ e
  let units := i.value / unit
  let below := units.floor.toNat
  let above := below + 1
  if i.Contains (below * unit) then
    if i.Contains (above * unit) then
      let lower := units - below
      let upper := above - units
      if lower < upper ∨ lower = upper ∧ below % 2 = 0 then some below else some above
    else some below
  else if i.Contains (above * unit) then some above
  else none

/-- Tries the places `e`, `e - 1`, ..., as many as given. -/
def search (i : RoundingInterval) : Nat → Int → Option Decimal
  | 0, _ => none
  | n + 1, e =>
    match i.neighbour? e with
    | some digits => some ⟨digits, e⟩
    | none => i.search n (e - 1)

end RoundingInterval

namespace Magnitude

/-- The exact value of a magnitude. -/
def value (v : Magnitude) : Rat := v.significand * 2 ^ v.exponent

/-- The rounding interval.  Its ends are half way to the neighbours of the number, of which the
smaller one is only half as far as the greater one at the bottom of a binade.  They belong to the
number if its significand is even. -/
def rounding (v : Magnitude) : RoundingInterval where
  value := v.value
  low :=
    if v.significand = Nat.pow 2 52 ∧ -1074 < v.exponent then v.value - 2 ^ (v.exponent - 2)
    else v.value - 2 ^ (v.exponent - 1)
  high := v.value + 2 ^ (v.exponent - 1)
  closed := v.significand % 2 == 0

/-- The decimal that is exactly `v`. -/
def exactDecimal (v : Magnitude) : Decimal :=
  if 0 ≤ v.exponent then ⟨v.significand * Nat.pow 2 v.exponent.toNat, 0⟩
  else ⟨v.significand * Nat.pow 5 (-v.exponent).toNat, v.exponent⟩

/-- The shortest decimal of a magnitude. -/
def shortest (v : Magnitude) : Decimal :=
  let start := pointPlace v.value
  (v.rounding.search (start - min v.exponent 0).toNat start).getD v.exactDecimal

end Magnitude

end FunctionPlot
