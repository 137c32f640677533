/-
# Tokens

A token is a piece of the text of a function: a number, an identifier, an operator or one of the
signs `(`, `)` and `,`.  `lexeme?` decides which token stands at the front of a text and how far it
reaches; a number and an identifier reach as far as they can.
-/
import FunctionPlot.Formula.Operator
import FunctionPlot.Number.Numeral

namespace FunctionPlot

/-- The kinds of tokens. -/
inductive TokenKind where
  /-- A numeral and its number. -/
  | number (value : Float)
  /-- A letter or underscore, followed by letters, digits and underscores. -/
  | identifier
  /-- The sign of an operator. -/
  | operator (op : Operator)
  /-- The sign `(`. -/
  | leftParen
  /-- The sign `)`. -/
  | rightParen
  /-- The sign `,`. -/
  | comma
deriving DecidableEq

/-- A token. -/
structure Token where
  /-- The kind, with what depends on it. -/
  kind : TokenKind
  /-- The text of the token. -/
  text : Text
  /-- The offset of its first code unit in the source. -/
  position : Nat
deriving DecidableEq

namespace Token

/-- The offset just behind a token. -/
def endPosition (t : Token) : Nat := t.position + t.text.length

end Token

/-- What can start an identifier. -/
def isIdentifierStart (u : CodeUnit) : Bool := isLetter u || u == unit '_'

/-- What can stand inside an identifier. -/
def isIdentifierPart (u : CodeUnit) : Bool := isLetter u || isDigit u || u == unit '_'

/-- The token at the front of a text: its kind, and how many code units it has behind the first.
Blanks start no token. -/
def lexeme? (first : CodeUnit) (rest : Text) : Option (TokenKind × Nat) :=
  if isDigit first || first == unit '.' && rest.head?.any isDigit then
    let length := numeralLength (first :: rest)
    some (.number (Number.ofNumeral ((first :: rest).take length)), length - 1)
  else if isIdentifierStart first then
    some (.identifier, (rest.takeWhile isIdentifierPart).length)
  else if let some op := Operator.ofSign? first then some (.operator op, 0)
  else if first = unit '(' then some (.leftParen, 0)
  else if first = unit ')' then some (.rightParen, 0)
  else if first = unit ',' then some (.comma, 0)
  else none

end FunctionPlot
