/-
# From tokens to formulas

A formula is read from tokens by recursive descent.  The grammar, from the loosest operators to
the tightest, is

    expression     := additive
    additive       := multiplicative (('+' | '-') multiplicative)*
    multiplicative := unary (('*' | '/') unary)*
    unary          := '-' unary | power
    power          := primary ('^' unary)?
    primary        := number | identifier | identifier '(' arguments? ')' | '(' expression ')'
    arguments      := expression (',' expression)*

The exponent of `^` is read at the level of `unary`.  So `^` groups to the right, `2^-x` is read,
and `-x^2` is the negation of `x^2`.

A parser looks one token ahead and can be asked for a formula again and again, whatever happened
before.  It counts how many `unary`s it is inside of and gives up beyond `maxDepth` of them, and
it builds no tree higher than `maxDepth`.  Each `unary` is read with the number of further ones
that it may contain, and by recursion on that number all of this file is total.
-/
import FunctionPlot.Formula
import FunctionPlot.Formula.TokenStream

namespace FunctionPlot

/-- The limit on the nesting that a parser follows and on the height of the trees it builds. -/
def maxDepth : Nat := 200

/-- The state of a parser. -/
structure Parser where
  /-- The token that is looked at; nothing at the end of the tokens. -/
  current? : Option Token
  /-- The token that was taken last. -/
  last? : Option Token
  /-- The tokens behind the current one. -/
  stream : TokenStream
  /-- How many `unary`s the parser is inside of.  An error leaves the count as it is. -/
  depth : Nat
  /-- The text that error messages show. -/
  source : Text

/-- An action of a parser, which changes its state also when it fails. -/
abbrev Parsing := EStateM FormulaError Parser

namespace Parser

/-- A parser that looks at the first token of a stream. -/
def start (stream : TokenStream) (source : Text) : Except FormulaError Parser :=
  match stream.next with
  | (.ok current?, stream) => .ok ⟨current?, none, stream, 0, source⟩
  | (.error e, _) => .error e

/-- How many tokens are left, the current one included. -/
def remaining (p : Parser) : Nat := p.current?.toList.length + p.stream.tokens.length

/-- The offset that stands for the end of the tokens: the end of the source if there is one, and
else the end of the last token. -/
def endPosition (p : Parser) : Nat :=
  if p.source.isEmpty then p.last?.elim 0 Token.endPosition else p.source.length

/-- What is found at the current token. -/
def found (p : Parser) : Text :=
  match p.current? with
  | some t => "'" ++ t.text ++ "'"
  | none => "end of input"

/-- The error that something else than the current token was expected. -/
def mismatch (p : Parser) (expected : Text) (reason? : Option Text) : FormulaError :=
  { cause := .mismatch expected p.found reason?
    position := p.current?.elim p.endPosition Token.position
    source := p.source }

end Parser

namespace Parsing

/-- Fails at the current token. -/
def fail {α : Type} (expected : Text) (reason? : Option Text) : Parsing α :=
  fun p => .error (p.mismatch expected reason?) p

/-- Fails because of one of the two limits. -/
def tooDeep {α : Type} : Parsing α :=
  fail "expression" (some
    ("Expression is nested more than " ++ Text.ofNat maxDepth ++ " levels deep"))

/-- Takes the current token and looks at the next one.  If that is an error, the token counts as
taken but stays in place, and the stream is at its end. -/
def advance : Parsing Unit := fun p =>
  match p.current? with
  | none => .ok () p
  | some t =>
    match p.stream.next with
    | (.ok current?, stream) => .ok () { p with current?, last? := some t, stream }
    | (.error e, stream) => .error e { p with last? := some t, stream }

/-- Takes the current token if it is of the given kind; says whether it was. -/
def accept (kind : TokenKind) : Parsing Bool := fun p =>
  if p.current?.any (·.kind = kind) then (advance *> pure true) p else .ok false p

/-- Takes a token of the given kind or fails. -/
def expect (kind : TokenKind) (description : Text) : Parsing Unit := do
  unless ← accept kind do fail description none

/-- Takes the current token if it is one of the given operators; gives the operator and the
offset of the token. -/
def acceptOperator (operators : List Operator) : Parsing (Option (Operator × Nat)) := fun p =>
  match p.current? with
  | some ⟨.operator op, _, position⟩ =>
    if op ∈ operators then (advance *> pure (some (op, position))) p else .ok none p
  | _ => .ok none p

/-- Fails if a new node makes the tree too high. -/
def build (f : Formula) : Parsing Formula :=
  if maxDepth < f.height then tooDeep else pure f

/-! ### Chains of operators that group to the left -/

/-- Reads further operands behind `left`, at most as many as given. -/
def chainFrom (operators : List Operator) (operand : Parsing Formula) :
    Nat → Formula → Parsing Formula
  | 0, left => pure left
  | n + 1, left => do
    match ← acceptOperator operators with
    | none => pure left
    | some (op, position) =>
      let right ← operand
      let node ← build (.binary op left right position)
      chainFrom operators operand n node

/-- Reads operands with operators between them.  There can be no more operators than tokens. -/
def chain (operators : List Operator) (operand : Parsing Formula) : Parsing Formula := do
  let left ← operand
  let p ← get
  chainFrom operators operand p.remaining left

/-! ### The levels of the grammar

Each level is given for one reading of `unary`, the level at which nesting is counted. -/

/-- Products and quotients. -/
def multiplicative (unary : Parsing Formula) : Parsing Formula := chain [.mul, .div] unary

/-- Sums and differences. -/
def additive (unary : Parsing Formula) : Parsing Formula :=
  chain [.add, .sub] (multiplicative unary)

/-- Any expression. -/
def expression (unary : Parsing Formula) : Parsing Formula := additive unary

/-- Reads further arguments, each behind a comma, at most as many as given. -/
def argumentsFrom (argument : Parsing Formula) : Nat → Parsing (List Formula)
  | 0 => pure []
  | n + 1 => do
    if ← accept .comma then
      let a ← argument
      let rest ← argumentsFrom argument n
      pure (a :: rest)
    else pure []

/-- Reads one or more arguments.  There can be no more commas than tokens. -/
def arguments (argument : Parsing Formula) : Parsing (List Formula) := do
  let a ← argument
  let p ← get
  let rest ← argumentsFrom argument p.remaining
  pure (a :: rest)

/-- Reads what follows the name of a function and its opening parenthesis. -/
def callBehind (unary : Parsing Formula) (name : Text) (position : Nat) : Parsing Formula := do
  let p ← get
  let arguments ←
    if p.current?.any (·.kind = .rightParen) then pure [] else arguments (expression unary)
  expect .rightParen "')'"
  build (.call name arguments position)

/-- A number, a name, a call or an expression in parentheses. -/
def primary (unary : Parsing Formula) : Parsing Formula := do
  let p ← get
  match p.current? with
  | some ⟨.number value, text, position⟩ =>
    if value.isFinite then
      advance
      pure (.constant value position)
    else fail "finite number" (some ("Number out of range: " ++ text))
  | some ⟨.leftParen, _, _⟩ =>
    advance
    let f ← expression unary
    expect .rightParen "')'"
    pure f
  | some ⟨.identifier, name, position⟩ =>
    advance
    if ← accept .leftParen then callBehind unary name position
    else pure (.symbol name position)
  | _ => fail "expression" none

/-- A primary, possibly raised to a power. -/
def power (unary : Parsing Formula) : Parsing Formula := do
  let base ← primary unary
  match ← acceptOperator [.pow] with
  | none => pure base
  | some (op, position) =>
    let exponent ← unary
    build (.binary op base exponent position)

/-- Counts one more nesting while an action runs.  If the action fails the count stays. -/
def nested {α : Type} (action : Parsing α) : Parsing α := do
  modify fun p => { p with depth := p.depth + 1 }
  let a ← action
  modify fun p => { p with depth := p.depth - 1 }
  pure a

/-- Negations and powers, of which at most `allowance` may be nested in each other. -/
def unary : Nat → Parsing Formula
  | 0 => tooDeep
  | allowance + 1 => nested do
    match ← acceptOperator [.sub] with
    | some (_, position) =>
      let operand ← unary allowance
      build (.negation operand position)
    | none => power (unary allowance)

/-- Reads one formula that takes all the tokens. -/
def formula : Parsing Formula := do
  let p ← get
  if p.current?.isNone then fail "expression" (some "Empty expression")
  let root ← expression (unary (maxDepth - p.depth))
  let p ← get
  if p.current?.isSome then fail "end of input" none
  pure root

end Parsing

namespace Parser

/-- Asks a parser for a formula; gives the parser as it is afterwards. -/
def parse (p : Parser) : Except FormulaError Formula × Parser :=
  match Parsing.formula p with
  | .ok f p => (.ok f, p)
  | .error e p => (.error e, p)

/-- Asks a parser for a formula a number of times. -/
def parses (p : Parser) : Nat → List (Except FormulaError Formula)
  | 0 => []
  | n + 1 =>
    let (answer, p) := p.parse
    answer :: p.parses n

end Parser

namespace Formula

/-- The formula that a stream of tokens stands for. -/
def ofStream (stream : TokenStream) (source : Text) : Except FormulaError Formula := do
  let p ← Parser.start stream source
  p.parse.1

/-- The formula that a list of tokens stands for. -/
def ofTokens (tokens : List Token) (source : Text) : Except FormulaError Formula :=
  ofStream (.ofList tokens) source

/-- The formula that a text stands for. -/
def ofText (source : Text) : Except FormulaError Formula :=
  ofStream (.ofText source) source

end Formula

end FunctionPlot
