/-
# Numerals

A numeral is the text of a decimal: digits with an optional point among, after or before them,
and an optional exponent.  As a grammar,

    numeral  := (digit+ ('.' digit*)? | '.' digit+) exponent?
    exponent := ('e' | 'E') ('+' | '-')? digit+

This file reads a text that is a numeral as a whole (`Decimal.ofText?`) and measures the longest
numeral at the front of a text (`numeralLength`).  On top of that stand numbers with a sign and
the lenient reading of counts, which also takes infinity, the empty text and numerals in base
two, eight and sixteen.
-/
import FunctionPlot.Text.Blank
import FunctionPlot.Number.Decimal

namespace FunctionPlot

/-- The natural number that a text of decimal digits stands for. -/
def ofDigits (digits : Text) : Nat := digits.foldl (fun n u => 10 * n + digitValue u) 0

/-- The mark before an exponent. -/
def isExponentMark (u : CodeUnit) : Bool := u == unit 'e' || u == unit 'E'

/-- A sign. -/
def isSign (u : CodeUnit) : Bool := u == unit '+' || u == unit '-'

/-- A text of at least one digit and nothing else. -/
def isDigits (t : Text) : Bool := !t.isEmpty && t.all isDigit

/-! ### Reading a numeral -/

/-- The value of the exponent part of a numeral, zero if there is none. -/
def exponentValue? : Text → Option Int
  | [] => some 0
  | mark :: rest =>
    if isExponentMark mark then
      match rest with
      | [] => none
      | u :: digits =>
        if isSign u then
          if isDigits digits then
            some (if u == unit '-' then -(ofDigits digits : Int) else ofDigits digits)
          else none
        else if isDigits rest then some (ofDigits rest) else none
    else none

/-- The digits behind the decimal point, and what follows them. -/
def splitFraction : Text → Text × Text
  | [] => ([], [])
  | u :: rest => if u = unit '.' then rest.span isDigit else ([], u :: rest)

namespace Decimal

/-- The decimal that a numeral stands for; nothing if the text is no numeral. -/
def ofText? (t : Text) : Option Decimal :=
  let (whole, rest) := t.span isDigit
  let (fraction, rest) := splitFraction rest
  if whole ++ fraction = [] then none
  else (exponentValue? rest).map fun e => ⟨ofDigits (whole ++ fraction), e - fraction.length⟩

end Decimal

/-! ### Measuring the numeral at the front of a text -/

/-- How many digits stand at the front of a text. -/
def digitsLength (t : Text) : Nat := (t.takeWhile isDigit).length

/-- The length of the fraction at the front of a text, its point included. -/
def fractionLength : Text → Nat
  | [] => 0
  | u :: rest => if u = unit '.' then 1 + digitsLength rest else 0

/-- The length of the exponent at the front of a text.  A mark that no digits follow, after a
sign or not, is no exponent. -/
def exponentLength : Text → Nat
  | [] => 0
  | mark :: rest =>
    if isExponentMark mark then
      let sign := (rest.take 1).countP isSign
      let digits := digitsLength (rest.drop sign)
      if digits = 0 then 0 else 1 + sign + digits
    else 0

/-- The length of the longest numeral at the front of a text, which starts with a digit or with
a point and a digit. -/
def numeralLength (t : Text) : Nat :=
  let whole := digitsLength t
  let fraction := fractionLength (t.drop whole)
  whole + fraction + exponentLength (t.drop (whole + fraction))

/-! ### Numbers -/

namespace Number

/-- The number of a numeral; `nan` for any other text. -/
def ofNumeral (t : Text) : Float :=
  match Decimal.ofText? t with
  | some d => d.nearest
  | none => nan

/-- The number of a numeral behind at most one sign. -/
def ofSigned? : Text → Option Float
  | [] => none
  | u :: rest =>
    if u = unit '-' then (Decimal.ofText? rest).map fun d => -d.nearest
    else if u = unit '+' then (Decimal.ofText? rest).map Decimal.nearest
    else (Decimal.ofText? (u :: rest)).map Decimal.nearest

/-- The value of a digit in bases up to sixteen; sixteen for all that is no such digit. -/
def baseDigit (u : CodeUnit) : Nat :=
  if isDigit u then digitValue u
  else if unit 'a' ≤ u && u ≤ unit 'f' then 10 + (u - unit 'a').toNat
  else if unit 'A' ≤ u && u ≤ unit 'F' then 10 + (u - unit 'A').toNat
  else 16

/-- The natural number that digits of a base stand for. -/
def ofBase? (base : Nat) (digits : Text) : Option Nat :=
  if digits.isEmpty then none
  else if digits.all (baseDigit · < base) then
    some (digits.foldl (fun n u => base * n + baseDigit u) 0)
  else none

/-- The base that the letter behind a leading zero announces. -/
def announcedBase? (u : CodeUnit) : Option Nat :=
  if u = unit 'x' || u = unit 'X' then some 16
  else if u = unit 'o' || u = unit 'O' then some 8
  else if u = unit 'b' || u = unit 'B' then some 2
  else none

/-- A count as a user types it, read leniently: blanks around it are ignored, nothing at all is
zero, and what cannot be read is `nan`. -/
def ofCount (t : Text) : Float :=
  match t.trim with
  | [] => 0
  | [u] => (ofSigned? [u]).getD nan
  | u :: v :: rest =>
    match if u = unit '0' then announcedBase? v else none with
    | some base => ((ofBase? base rest).map fun n => Decimal.nearest ⟨n, 0⟩).getD nan
    | none =>
      if u :: v :: rest = "Infinity" ∨ u :: v :: rest = "+Infinity" then infinity
      else if u :: v :: rest = "-Infinity" then -infinity
      else (ofSigned? (u :: v :: rest)).getD nan

end Number

end FunctionPlot
