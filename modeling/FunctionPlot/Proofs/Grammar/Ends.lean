/-
# Where derivations can end

A phrase can be followed by tokens that do not continue it, and by no opening parenthesis if its
last token is a name.  `Derivation.Ends` says that a derivation can end in front of some tokens.
Where a phrase can end, the parts of it can, and the other way round for its last part.

Phrases also differ in the tokens they start with.
-/
import FunctionPlot.Proofs.Grammar

namespace FunctionPlot

namespace TokenKind

/-- The kinds of the tokens that a primary starts with. -/
def StartsPrimary : TokenKind → Prop
  | number _ => True
  | identifier => True
  | leftParen => True
  | _ => False

/-- The kinds of the tokens that a formula starts with. -/
def StartsFormula (kind : TokenKind) : Prop := kind.StartsPrimary ∨ kind = .operator .sub

end TokenKind

/-- A token has one kind only. -/
lemma Token.Of.kind_unique {k l : TokenKind} {s : Token.Of k} {t : Token.Of l}
    (h : s.val = t.val) : k = l := by
  rw [← s.property, h, t.property]

/-- The kinds of the tokens that a chain takes in when they stand behind it. -/
def Chain.continuations : Chain → List TokenKind
  | multiplicative => [.operator .pow, .operator .mul, .operator .div]
  | additive =>
    [.operator .pow, .operator .mul, .operator .div, .operator .add, .operator .sub]

/-- The kinds of the tokens that a phrase takes in when they stand behind it. -/
def Nonterminal.continuations : Nonterminal → List TokenKind
  | phrase .primary => []
  | phrase .power => [.operator .pow]
  | phrase .unary => [.operator .pow]
  | phrase (.chain c) => c.continuations
  | steps c => c.continuations
  | arguments => .comma :: Chain.additive.continuations
  | moreArguments => .comma :: Chain.additive.continuations

/-- The first of some tokens does not continue a phrase. -/
def Nonterminal.Stops (G : Nonterminal) (rest : List Token) : Prop :=
  ∀ t ∈ rest.head?, t.kind ∉ G.continuations

/-- There is no name with an opening parenthesis behind it at the joint of two lists of tokens. -/
def Apart (ts rest : List Token) : Prop :=
  ∀ t ∈ ts.getLast?, ∀ u ∈ rest.head?, t.kind = .identifier → u.kind ≠ .leftParen

namespace Apart

variable {t : Token} {ts us rest : List Token}

lemma right (h : Apart (ts ++ us) rest) : Apart us rest := by
  intro t ht
  refine h t ?_
  rw [List.getLast?_append, ht]
  rfl

lemma tail (h : Apart (t :: us) rest) : Apart us rest := by
  rw [← List.singleton_append] at h
  exact h.right

lemma append (h : Apart ts (us ++ rest)) (h' : Apart us rest) : Apart (ts ++ us) rest := by
  rcases us.eq_nil_or_concat' with rfl | ⟨init, last, rfl⟩
  · simpa using h
  · intro t ht
    rw [← List.append_assoc, List.getLast?_concat] at ht
    exact h' t (by rw [List.getLast?_concat]; exact ht)

/-- Behind a token that is no name everything is apart. -/
lemma concat (ht : t.kind ≠ .identifier) : Apart (ts ++ [t]) rest := by
  intro u hu
  obtain rfl : t = u := by simpa using hu
  exact fun _ _ hkind => absurd hkind ht

lemma cons (ht : t.kind ≠ .identifier) (h : Apart us rest) : Apart (t :: us) rest := by
  rw [← List.singleton_append]
  refine append ?_ h
  rw [← List.nil_append [t]]
  exact concat ht

end Apart

namespace Derivation

open Nonterminal

variable {G : Nonterminal} {rest : List Token} {c : Chain}

/-- A derivation can end in front of some tokens: the first of them does not continue it. -/
structure Ends (d : Derivation G) (rest : List Token) : Prop where
  stops : G.Stops rest
  apart : Apart d.tokens rest

lemma ends_nil (d : Derivation G) : d.Ends [] := ⟨by simp [Stops], by simp [Apart]⟩

lemma Ends.of_head? {d : Derivation G} {us : List Token} (h : d.Ends us)
    (hhead : rest.head? = us.head?) : d.Ends rest := by
  constructor
  · rw [Stops, hhead]
    exact h.stops
  · intro t ht
    rw [hhead]
    exact h.apart t ht

lemma ends_cons (d : Derivation G) {kind : TokenKind} (t : Token.Of kind)
    (hkind : kind ∉ G.continuations) (hne : kind ≠ .leftParen) : d.Ends (t.val :: rest) := by
  constructor
  · intro u hu
    obtain rfl : t.val = u := by simpa using hu
    rwa [t.property]
  · intro _ _ u hu _
    obtain rfl : t.val = u := by simpa using hu
    rwa [t.property]

lemma stops_operand {op : Operator} (hop : op ∈ c.operators) :
    .operator op ∉ (phrase c.operand).continuations := by
  revert hop
  cases c <;> cases op <;> decide

lemma not_stops_operator {op : Operator} (hop : op ∈ c.operators) (sign : Token.Of (.operator op)) :
    ¬ (steps c).Stops (sign.val :: rest) := by
  intro h
  refine h sign.val rfl ?_
  rw [sign.property]
  revert hop
  cases c <;> cases op <;> decide

lemma not_stops_caret (sign : Token.Of (.operator .pow)) :
    ¬ (phrase .power).Stops (sign.val :: rest) := by
  intro h
  refine h sign.val rfl ?_
  rw [sign.property]
  decide

lemma not_stops_comma (comma : Token.Of .comma) : ¬ moreArguments.Stops (comma.val :: rest) := by
  intro h
  refine h comma.val rfl ?_
  rw [comma.property]
  decide

lemma not_ends_name (t : Token.Of .identifier) (opening : Token.Of .leftParen) :
    ¬ (name t).Ends (opening.val :: rest) :=
  fun h => h.apart t.val rfl opening.val rfl t.property opening.property

/-! ### Where a phrase can end, its parts can -/

lemma Stops.operand (h : (steps c).Stops rest) : (phrase c.operand).Stops rest := by
  intro t ht hmem
  refine h t ht ?_
  revert hmem
  cases c <;> simp [continuations, Chain.continuations, Chain.operand] <;> grind

lemma Ends.first {first : Derivation (.phrase c.operand)} {further : Derivation (.steps c)}
    (h : (chain first further).Ends rest) : first.Ends (further.tokens ++ rest) := by
  cases further with
  | done => exact ⟨Stops.operand h.stops, by simpa [tokens] using h.apart⟩
  | step op mem sign operand further => exact ends_cons first sign (stops_operand mem) (by simp)

lemma Ends.further {first : Derivation (.phrase c.operand)} {further : Derivation (.steps c)}
    (h : (chain first further).Ends rest) : further.Ends rest := ⟨h.stops, h.apart.right⟩

lemma Ends.operand {op : Operator} {mem : op ∈ c.operators} {sign : Token.Of (.operator op)}
    {operand : Derivation (.phrase c.operand)} {further : Derivation (.steps c)}
    (h : (step op mem sign operand further).Ends rest) : operand.Ends (further.tokens ++ rest) :=
  Ends.first ⟨h.stops, h.apart.tail⟩

lemma Ends.further_step {op : Operator} {mem : op ∈ c.operators} {sign : Token.Of (.operator op)}
    {operand : Derivation (.phrase c.operand)} {further : Derivation (.steps c)}
    (h : (step op mem sign operand further).Ends rest) : further.Ends rest :=
  ⟨h.stops, h.apart.tail.right⟩

lemma Ends.negated {sign : Token.Of (.operator .sub)} {operand : Derivation (.phrase .unary)}
    (h : (negation sign operand).Ends rest) : operand.Ends rest := ⟨h.stops, h.apart.tail⟩

lemma Ends.power {power : Derivation (.phrase .power)} (h : (positive power).Ends rest) :
    power.Ends rest := ⟨h.stops, h.apart⟩

lemma Ends.base {base : Derivation (.phrase .primary)} (h : (bare base).Ends rest) :
    base.Ends rest := ⟨by simp [Stops, continuations], h.apart⟩

lemma Ends.exponent {base : Derivation (.phrase .primary)} {sign : Token.Of (.operator .pow)}
    {exponent : Derivation (.phrase .unary)} (h : (raised base sign exponent).Ends rest) :
    exponent.Ends rest := ⟨h.stops, h.apart.right.tail⟩

lemma ends_caret (base : Derivation (.phrase .primary)) (sign : Token.Of (.operator .pow)) :
    base.Ends (sign.val :: rest) := ends_cons base sign (by decide) (by decide)

lemma ends_closing (d : Derivation .expression) (closing : Token.Of .rightParen) :
    d.Ends (closing.val :: rest) := ends_cons d closing (by decide) (by decide)

lemma ends_arguments_closing (d : Derivation .arguments) (closing : Token.Of .rightParen) :
    d.Ends (closing.val :: rest) := ends_cons d closing (by decide) (by decide)

lemma Stops.argument (h : moreArguments.Stops rest) : expression.Stops rest :=
  fun t ht hmem => h t ht (List.mem_cons_of_mem _ hmem)

lemma Ends.argument {first : Derivation .expression} {further : Derivation .moreArguments}
    (h : (arguments first further).Ends rest) : first.Ends (further.tokens ++ rest) := by
  cases further with
  | noMore => exact ⟨Stops.argument h.stops, by simpa [tokens] using h.apart⟩
  | more comma argument further => exact ends_cons first comma (by decide) (by decide)

lemma Ends.further_arguments {first : Derivation .expression} {further : Derivation .moreArguments}
    (h : (arguments first further).Ends rest) : further.Ends rest := ⟨h.stops, h.apart.right⟩

lemma Ends.argument_more {comma : Token.Of .comma} {argument : Derivation .expression}
    {further : Derivation .moreArguments} (h : (more comma argument further).Ends rest) :
    argument.Ends (further.tokens ++ rest) := Ends.argument ⟨h.stops, h.apart.tail⟩

lemma Ends.further_more {comma : Token.Of .comma} {argument : Derivation .expression}
    {further : Derivation .moreArguments} (h : (more comma argument further).Ends rest) :
    further.Ends rest := ⟨h.stops, h.apart.tail.right⟩

/-! ### Where the last part of a phrase can end, the phrase can -/

lemma Ends.chain {first : Derivation (.phrase c.operand)} {further : Derivation (.steps c)}
    (h : first.Ends (further.tokens ++ rest)) (h' : further.Ends rest) :
    (chain first further).Ends rest := ⟨h'.stops, h.apart.append h'.apart⟩

lemma Ends.step {op : Operator} (mem : op ∈ c.operators) (sign : Token.Of (.operator op))
    {operand : Derivation (.phrase c.operand)} {further : Derivation (.steps c)}
    (h : operand.Ends (further.tokens ++ rest)) (h' : further.Ends rest) :
    (step op mem sign operand further).Ends rest :=
  ⟨h'.stops, (h.apart.append h'.apart).cons (by simp [sign.property])⟩

lemma Ends.negation (sign : Token.Of (.operator .sub)) {operand : Derivation (.phrase .unary)}
    (h : operand.Ends rest) : (negation sign operand).Ends rest :=
  ⟨h.stops, h.apart.cons (by simp [sign.property])⟩

lemma Ends.raised (base : Derivation (.phrase .primary)) (sign : Token.Of (.operator .pow))
    {exponent : Derivation (.phrase .unary)} (h : exponent.Ends rest) :
    (raised base sign exponent).Ends rest := by
  refine ⟨h.stops, Apart.append ?_ (h.apart.cons (by simp [sign.property]))⟩
  exact (ends_caret base sign).apart

lemma Ends.arguments {first : Derivation .expression} {further : Derivation .moreArguments}
    (h : first.Ends (further.tokens ++ rest)) (h' : further.Ends rest) :
    (arguments first further).Ends rest := ⟨h'.stops, h.apart.append h'.apart⟩

lemma Ends.more (comma : Token.Of .comma) {argument : Derivation .expression}
    {further : Derivation .moreArguments} (h : argument.Ends (further.tokens ++ rest))
    (h' : further.Ends rest) : (more comma argument further).Ends rest :=
  ⟨h'.stops, (h.apart.append h'.apart).cons (by simp [comma.property])⟩

/-- A primary whose last token is no name can end anywhere. -/
lemma ends_primary {d : Derivation (.phrase .primary)} (ts : List Token) (t : Token)
    (heq : d.tokens = ts ++ [t]) (ht : t.kind ≠ .identifier) : d.Ends rest := by
  refine ⟨by simp [Stops, continuations], ?_⟩
  rw [heq]
  exact Apart.concat ht

/-! ### What a phrase starts with -/

/-- A primary starts with a number, a name or an opening parenthesis. -/
lemma exists_head_primary (d : Derivation (.phrase .primary)) :
    ∃ t ts, d.tokens = t :: ts ∧ t.kind.StartsPrimary := by
  cases d with
  | number value t => exact ⟨t, [], rfl, by simp [t.property, TokenKind.StartsPrimary]⟩
  | name t => exact ⟨t, [], rfl, by simp [t.property, TokenKind.StartsPrimary]⟩
  | emptyCall t opening closing => exact ⟨t, _, rfl, by simp [t.property, TokenKind.StartsPrimary]⟩
  | call t opening args closing => exact ⟨t, _, rfl, by simp [t.property, TokenKind.StartsPrimary]⟩
  | group opening inner closing =>
    exact ⟨opening, _, rfl, by simp [opening.property, TokenKind.StartsPrimary]⟩

lemma exists_head_power (d : Derivation (.phrase .power)) :
    ∃ t ts, d.tokens = t :: ts ∧ t.kind.StartsPrimary := by
  cases d with
  | bare base => exact exists_head_primary base
  | raised base sign exponent =>
    obtain ⟨t, ts, hts, ht⟩ := exists_head_primary base
    exact ⟨t, _, by rw [tokens, hts, List.cons_append], ht⟩

/-- A formula of any level starts with a number, a name, an opening parenthesis or a minus. -/
lemma exists_head : ∀ {level : Level} (d : Derivation (.phrase level)),
    ∃ t ts, d.tokens = t :: ts ∧ t.kind.StartsFormula
  | _, chain first rest => by
    obtain ⟨t, ts, hts, ht⟩ := exists_head first
    exact ⟨t, _, by rw [tokens, hts, List.cons_append], ht⟩
  | _, negation sign operand => ⟨sign, _, rfl, .inr sign.property⟩
  | _, positive power => by
    obtain ⟨t, ts, hts, ht⟩ := exists_head_power power
    exact ⟨t, ts, hts, .inl ht⟩
  | .power, d => by
    obtain ⟨t, ts, hts, ht⟩ := exists_head_power d
    exact ⟨t, ts, hts, .inl ht⟩
  | .primary, d => by
    obtain ⟨t, ts, hts, ht⟩ := exists_head_primary d
    exact ⟨t, ts, hts, .inl ht⟩

/-- Tokens that a power starts with do not start with a minus. -/
lemma tokens_power_ne_minus (d : Derivation (.phrase .power)) (sign : Token.Of (.operator .sub))
    (ts us : List Token) : d.tokens ++ ts ≠ sign.val :: us := by
  obtain ⟨t, ts', hts, ht⟩ := exists_head_power d
  intro h
  rw [hts, List.cons_append, List.cons.injEq] at h
  rw [h.1, sign.property] at ht
  exact ht

/-- Tokens that an expression starts with do not start with a closing parenthesis. -/
lemma tokens_arguments_ne_closing (d : Derivation .arguments) (closing : Token.Of .rightParen)
    (ts us : List Token) : d.tokens ++ ts ≠ closing.val :: us := by
  cases d with
  | arguments first more =>
    obtain ⟨t, ts', hts, ht⟩ := exists_head first
    intro h
    rw [tokens, hts, List.cons_append, List.cons_append, List.cons.injEq] at h
    rw [h.1, closing.property] at ht
    simp [TokenKind.StartsFormula, TokenKind.StartsPrimary] at ht

end Derivation

end FunctionPlot
