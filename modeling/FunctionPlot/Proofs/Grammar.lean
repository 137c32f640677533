/-
# Derivations of the grammar

The grammar of formulas is given by its derivations: a value of `Derivation G` is a derivation
from the nonterminal `G`, with the tokens that stand at its leaves.  The grammar, from the loosest
operators to the tightest, is

    expression     := additive
    additive       := multiplicative (('+' | '-') multiplicative)*
    multiplicative := unary (('*' | '/') unary)*
    unary          := '-' unary | power
    power          := primary ('^' unary)?
    primary        := number | identifier | identifier '(' arguments? ')' | '(' expression ')'
    arguments      := expression (',' expression)*

The two levels of chains that group to the left have one shape, and `Chain` says which of them is
meant; the repetitions have nonterminals of their own.

A derivation has a list of tokens, a formula (`Derivation.meaning`) and a nesting, the greatest
number of `unary`s on a path from its root to a leaf.
-/
import FunctionPlot.Formula.Parser
import Mathlib.Data.List.Basic
import Mathlib.Order.Basic

namespace FunctionPlot

/-- The levels of the grammar at which operators group to the left. -/
inductive Chain where
  /-- Sums and differences. -/
  | additive
  /-- Products and quotients. -/
  | multiplicative
deriving DecidableEq

/-- The levels of the grammar. -/
inductive Level where
  /-- Operands with operators between them that group to the left. -/
  | chain (c : Chain)
  /-- Negations and powers. -/
  | unary
  /-- A primary, possibly raised to a power. -/
  | power
  /-- A number, a name, a call or an expression in parentheses. -/
  | primary
deriving DecidableEq

namespace Chain

/-- The operators of a chain. -/
def operators : Chain → List Operator
  | additive => [.add, .sub]
  | multiplicative => [.mul, .div]

/-- The level of the operands of a chain. -/
def operand : Chain → Level
  | additive => .chain multiplicative
  | multiplicative => .unary

end Chain

/-- The nonterminals of the grammar. -/
inductive Nonterminal where
  /-- A formula of some level. -/
  | phrase (level : Level)
  /-- Any number of operators of a chain, each with an operand behind it. -/
  | steps (c : Chain)
  /-- One or more expressions with commas between them. -/
  | arguments
  /-- Any number of commas, each with an expression behind it. -/
  | moreArguments
deriving DecidableEq

/-- The nonterminal of a whole formula. -/
abbrev Nonterminal.expression : Nonterminal := .phrase (.chain .additive)

/-- A token of the given kind. -/
abbrev Token.Of (kind : TokenKind) := { t : Token // t.kind = kind }

/-- The derivations from a nonterminal. -/
inductive Derivation : Nonterminal → Type where
  /-- `operand steps` -/
  | chain {c : Chain} (first : Derivation (.phrase c.operand)) (rest : Derivation (.steps c)) :
      Derivation (.phrase (.chain c))
  /-- No more steps. -/
  | done {c : Chain} : Derivation (.steps c)
  /-- `operator operand steps` -/
  | step {c : Chain} (op : Operator) (mem : op ∈ c.operators) (sign : Token.Of (.operator op))
      (operand : Derivation (.phrase c.operand)) (rest : Derivation (.steps c)) :
      Derivation (.steps c)
  /-- `'-' unary` -/
  | negation (sign : Token.Of (.operator .sub)) (operand : Derivation (.phrase .unary)) :
      Derivation (.phrase .unary)
  /-- `power` as a `unary` -/
  | positive (power : Derivation (.phrase .power)) : Derivation (.phrase .unary)
  /-- `primary` as a `power` -/
  | bare (base : Derivation (.phrase .primary)) : Derivation (.phrase .power)
  /-- `primary '^' unary` -/
  | raised (base : Derivation (.phrase .primary)) (sign : Token.Of (.operator .pow))
      (exponent : Derivation (.phrase .unary)) : Derivation (.phrase .power)
  /-- `number` -/
  | number (value : Float) (t : Token.Of (.number value)) : Derivation (.phrase .primary)
  /-- `identifier` -/
  | name (t : Token.Of .identifier) : Derivation (.phrase .primary)
  /-- `identifier '(' ')'` -/
  | emptyCall (t : Token.Of .identifier) (opening : Token.Of .leftParen)
      (closing : Token.Of .rightParen) : Derivation (.phrase .primary)
  /-- `identifier '(' arguments ')'` -/
  | call (t : Token.Of .identifier) (opening : Token.Of .leftParen)
      (args : Derivation .arguments) (closing : Token.Of .rightParen) :
      Derivation (.phrase .primary)
  /-- `'(' expression ')'` -/
  | group (opening : Token.Of .leftParen) (inner : Derivation .expression)
      (closing : Token.Of .rightParen) : Derivation (.phrase .primary)
  /-- `expression moreArguments` -/
  | arguments (first : Derivation .expression) (rest : Derivation .moreArguments) :
      Derivation .arguments
  /-- No more arguments. -/
  | noMore : Derivation .moreArguments
  /-- `',' expression moreArguments` -/
  | more (comma : Token.Of .comma) (argument : Derivation .expression)
      (rest : Derivation .moreArguments) : Derivation .moreArguments

/-- What the derivations from a nonterminal stand for.  Steps stand for what they make of the
formula in front of them. -/
abbrev Nonterminal.Meaning : Nonterminal → Type
  | phrase _ => Formula
  | steps _ => Formula → Formula
  | arguments => List Formula
  | moreArguments => List Formula

namespace Derivation

variable {G : Nonterminal}

/-- The tokens at the leaves of a derivation. -/
def tokens {G : Nonterminal} : Derivation G → List Token
  | chain first rest => first.tokens ++ rest.tokens
  | done => []
  | step _ _ sign operand rest => sign.val :: (operand.tokens ++ rest.tokens)
  | negation sign operand => sign.val :: operand.tokens
  | positive power => power.tokens
  | bare base => base.tokens
  | raised base sign exponent => base.tokens ++ sign.val :: exponent.tokens
  | number _ t => [t.val]
  | name t => [t.val]
  | emptyCall t opening closing => [t.val, opening.val, closing.val]
  | call t opening args closing =>
    t.val :: opening.val :: (args.tokens ++ [closing.val])
  | group opening inner closing => opening.val :: (inner.tokens ++ [closing.val])
  | arguments first rest => first.tokens ++ rest.tokens
  | noMore => []
  | more comma argument rest => comma.val :: (argument.tokens ++ rest.tokens)

/-- The formula that a derivation stands for: chains group to the left and powers to the right,
and each node has the position of its operator, its name or its number. -/
def meaning {G : Nonterminal} : Derivation G → G.Meaning
  | chain first rest => rest.meaning first.meaning
  | done => fun left => left
  | step op _ sign operand rest => fun left =>
    rest.meaning (.binary op left operand.meaning sign.val.position)
  | negation sign operand => .negation operand.meaning sign.val.position
  | positive power => power.meaning
  | bare base => base.meaning
  | raised base sign exponent => .binary .pow base.meaning exponent.meaning sign.val.position
  | number value t => .constant value t.val.position
  | name t => .symbol t.val.text t.val.position
  | emptyCall t _ _ => .call t.val.text [] t.val.position
  | call t _ args _ => .call t.val.text args.meaning t.val.position
  | group _ inner _ => inner.meaning
  | arguments first rest => first.meaning :: rest.meaning
  | noMore => []
  | more _ argument rest => argument.meaning :: rest.meaning

/-- The greatest number of `unary`s on a path from the root to a leaf. -/
def nesting {G : Nonterminal} : Derivation G → Nat
  | chain first rest => max first.nesting rest.nesting
  | done => 0
  | step _ _ _ operand rest => max operand.nesting rest.nesting
  | negation _ operand => 1 + operand.nesting
  | positive power => 1 + power.nesting
  | bare base => base.nesting
  | raised base _ exponent => max base.nesting exponent.nesting
  | number _ _ => 0
  | name _ => 0
  | emptyCall _ _ _ => 0
  | call _ _ args _ => args.nesting
  | group _ inner _ => inner.nesting
  | arguments first rest => max first.nesting rest.nesting
  | noMore => 0
  | more _ argument rest => max argument.nesting rest.nesting

end Derivation

end FunctionPlot
