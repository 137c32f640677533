/-
# Decimals

A decimal is a natural number of units in some decimal place.  This file gives its exact value
and the number nearest to it, and finds the decimal place at which a rational number starts.
-/
import FunctionPlot.Number

namespace FunctionPlot

/-- The decimal `digits * 10 ^ exponent`. -/
structure Decimal where
  /-- How many units the decimal has in its last place. -/
  digits : Nat
  /-- The last place, as an exponent of ten. -/
  exponent : Int
deriving DecidableEq, Repr

namespace Decimal

/-- The exact value of a decimal. -/
def value (d : Decimal) : Rat := d.digits * 10 ^ d.exponent

/-- The number nearest to a decimal; of two equally near the one with even significand, and
infinity from half a unit beyond the largest number on. -/
def nearest (d : Decimal) : Float :=
  Float.ofModel (Float.Model.ofScientific d.digits d.exponent)

end Decimal

/-- How many decimal digits a natural number has. -/
def decimalLength (n : Nat) : Nat := (Nat.toDigits 10 n).length

/-- The place of the decimal point of a positive rational number: the exponent `k` with
`10 ^ (k - 1) ≤ x < 10 ^ k`. -/
def pointPlace (x : Rat) : Int :=
  if 1 ≤ x then decimalLength x.floor.toNat
  else
    let k : Int := 1 - decimalLength x⁻¹.floor.toNat
    if 10 ^ k ≤ x then k + 1 else k

end FunctionPlot
