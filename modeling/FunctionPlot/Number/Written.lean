/-
# The written form of numbers

A number is written with the fewest digits that identify it, positionally as long as its decimal
point stands near its digits and with an exponent otherwise.  Where that changes, and how the
special values are written, is the data of a `Style`; this library has one style, `plain`.
-/
import FunctionPlot.Text
import FunctionPlot.Number.Shortest

namespace FunctionPlot

/-- The decisions of a written form. -/
structure Style where
  /-- The least place of the decimal point that is written positionally. -/
  leastPlace : Int
  /-- The greatest place of the decimal point that is written positionally. -/
  greatestPlace : Int
  /-- What separates the digits from an exponent. -/
  exponentMark : Text
  /-- The sign of an exponent that is not negative. -/
  exponentPlus : Text
  /-- The two zeros. -/
  zero : Text
  /-- Zero with a minus sign. -/
  negativeZero : Text
  /-- The infinite value. -/
  infinity : Text
  /-- The value that is no number. -/
  nan : Text

/-- The style of all the texts of this library.  Numbers from `1e-6` up to below `1e21` are
written positionally, and negative zero loses its sign. -/
def plain : Style where
  leastPlace := -5
  greatestPlace := 21
  exponentMark := "e"
  exponentPlus := "+"
  zero := "0"
  negativeZero := "0"
  infinity := "Infinity"
  nan := "NaN"

namespace Decimal

/-- The text of a decimal in scientific form, of which `place` is the place of the decimal
point. -/
def scientific (style : Style) (digits : Text) (place : Int) : Text :=
  let exponent := place - 1
  let fraction := if digits.length ≤ 1 then [] else unit '.' :: digits.drop 1
  digits.take 1 ++ fraction ++ style.exponentMark
    ++ (if exponent < 0 then [unit '-'] else style.exponentPlus) ++ Text.ofNat exponent.natAbs

/-- The text of a decimal. -/
def written (style : Style) (d : Decimal) : Text :=
  let digits := Text.ofNat d.digits
  let place := digits.length + d.exponent
  if style.leastPlace ≤ place ∧ place ≤ style.greatestPlace then
    if 0 ≤ d.exponent then digits ++ List.replicate d.exponent.toNat (unit '0')
    else if 0 < place then digits.take place.toNat ++ unit '.' :: digits.drop place.toNat
    else "0." ++ List.replicate (-place).toNat (unit '0') ++ digits
  else scientific style digits place

end Decimal

namespace Number

/-- The text of a number. -/
def writtenIn (style : Style) (v : Float) : Text :=
  match v.toModel.unpack with
  | .notANumber => style.nan
  | .infinity .positive => style.infinity
  | .infinity .negative => "-" ++ style.infinity
  | .zero .positive => style.zero
  | .zero .negative => style.negativeZero
  | .finite .positive m q _ => (Magnitude.shortest ⟨m, q⟩).written style
  | .finite .negative m q _ => "-" ++ (Magnitude.shortest ⟨m, q⟩).written style

/-- The text of a number in the style of this library. -/
def written (v : Float) : Text := writtenIn plain v

end Number

end FunctionPlot
