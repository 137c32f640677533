/-
# Numbers

A number is a double of IEEE 754, Lean's `Float`.  This file adds the exact rational value of a
finite number and the few operations on which a function grapher needs to be precise: being an
integer, the lesser and the greater of two numbers, and powers.

Lesser and greater order negative zero below zero and let `NaN` win; `least_nan` and
`greatest_nan` say so.
-/

namespace FunctionPlot

namespace Number

/-- The value that is no number. -/
def nan : Float := Float.ofBits 0x7FF8000000000000

/-- Positive infinity. -/
def infinity : Float := Float.ofBits 0x7FF0000000000000

/-- Zero with a minus sign. -/
def negativeZero : Float := Float.ofBits 0x8000000000000000

/-- Whether the sign of a number is a minus, that of negative zero included. -/
def isNegative (v : Float) : Bool := v.toBits >>> 63 == 1

/-- The rational number that a finite number stands for. -/
def rational? (v : Float) : Option Rat :=
  match v.toModel.unpack with
  | .infinity _ => none
  | .notANumber => none
  | .zero _ => some 0
  | .finite .positive m q _ => some (m * 2 ^ q)
  | .finite .negative m q _ => some (-(m * 2 ^ q))

/-- A finite number without a fractional part. -/
def isInteger (v : Float) : Bool :=
  match rational? v with
  | some r => r.den == 1
  | none => false

/-- The natural number that a number stands for; zero if it stands for none. -/
def toNat (v : Float) : Nat :=
  match rational? v with
  | some r => if r.den == 1 then r.num.toNat else 0
  | none => 0

/-- The lesser of two numbers. -/
def least (a b : Float) : Float :=
  if a.isNaN || b.isNaN then nan
  else if a < b then a
  else if b < a then b
  else if isNegative a then a else b

/-- The greater of two numbers. -/
def greatest (a b : Float) : Float :=
  if a.isNaN || b.isNaN then nan
  else if a < b then b
  else if b < a then a
  else if isNegative a then b else a

/-- Powers.  An exponent that is no number gives no number, and so does an infinite exponent
over a base of magnitude one. -/
def power (base exponent : Float) : Float :=
  if exponent.isNaN then nan
  else if base.abs == 1 && exponent.isInf then nan
  else base.pow exponent

theorem least_nan {a b : Float} (h : a.isNaN ∨ b.isNaN) : least a b = nan :=
  if_pos (Bool.or_eq_true_iff.mpr h)

theorem greatest_nan {a b : Float} (h : a.isNaN ∨ b.isNaN) : greatest a b = nan :=
  if_pos (Bool.or_eq_true_iff.mpr h)

end Number

end FunctionPlot
