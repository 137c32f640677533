/-
# Derivations with a given front

The first token of a derivation tells by which production it goes, up to the choice between a name
and a call, for which a second token is needed.  For each such token there is a lemma: a derivation
whose tokens begin with it is by the production of the token, and continues with the part behind it.
-/
import FunctionPlot.Proofs.Grammar.Ends

namespace FunctionPlot

namespace Derivation

open Nonterminal

variable {rest us : List Token} {c : Chain}

/-- The steps of a chain are over where they can end. -/
lemma eq_done_of_stops {d : Derivation (.steps c)} (hstops : (steps c).Stops us)
    (heq : d.tokens ++ rest = us) : d = done ∧ us = rest := by
  cases d with
  | done => exact ⟨rfl, heq.symm⟩
  | step op mem sign operand more =>
    rw [← heq] at hstops
    exact absurd hstops (not_stops_operator mem sign)

/-- Behind an operator of a chain stands an operand. -/
lemma eq_step_of_sign {d : Derivation (.steps c)} {op : Operator} (mem : op ∈ c.operators)
    {sign : Token.Of (.operator op)} (hends : d.Ends rest)
    (heq : d.tokens ++ rest = sign.val :: us) :
    ∃ operand more, d = step op mem sign operand more ∧
      us = operand.tokens ++ (more.tokens ++ rest) := by
  cases d with
  | done =>
    rw [tokens, List.nil_append] at heq
    rw [heq] at hends
    exact absurd hends.stops (not_stops_operator mem sign)
  | step op' mem' sign' operand more =>
    rw [tokens, List.cons_append, List.append_assoc] at heq
    obtain ⟨hsign, rfl⟩ := List.cons.inj heq
    obtain rfl : op' = op := TokenKind.operator.inj (Token.Of.kind_unique hsign)
    obtain rfl : sign' = sign := Subtype.ext hsign
    exact ⟨operand, more, rfl, rfl⟩

/-- Behind a minus stands what is negated. -/
lemma eq_negation_of_sign {d : Derivation (.phrase .unary)} {sign : Token.Of (.operator .sub)}
    (heq : d.tokens ++ rest = sign.val :: us) :
    ∃ operand, d = negation sign operand ∧ us = operand.tokens ++ rest := by
  cases d with
  | negation sign' operand =>
    rw [tokens, List.cons_append] at heq
    obtain ⟨hsign, rfl⟩ := List.cons.inj heq
    obtain rfl : sign' = sign := Subtype.ext hsign
    exact ⟨operand, rfl, rfl⟩
  | positive power => exact absurd heq (tokens_power_ne_minus power sign _ _)

/-- Nothing else starts with a number. -/
lemma eq_number_of_token {d : Derivation (.phrase .primary)} {value : Float}
    {t : Token.Of (.number value)} (heq : d.tokens ++ rest = t.val :: us) :
    d = number value t ∧ us = rest := by
  cases d with
  | number value' t' =>
    obtain ⟨ht, rfl⟩ := List.cons.inj heq
    obtain rfl : value' = value := TokenKind.number.inj (Token.Of.kind_unique ht)
    obtain rfl : t' = t := Subtype.ext ht
    exact ⟨rfl, rfl⟩
  | name t' | emptyCall t' opening closing | call t' opening args closing
  | group opening inner closing =>
    exact absurd (Token.Of.kind_unique (List.cons.inj heq).1) (by simp)

/-- A name with no opening parenthesis behind it stands for itself. -/
lemma eq_name_of_token {d : Derivation (.phrase .primary)} {t : Token.Of .identifier}
    (hends : (name t).Ends us) (heq : d.tokens ++ rest = t.val :: us) : d = name t ∧ us = rest := by
  cases d with
  | number value t' | group opening inner closing =>
    exact absurd (Token.Of.kind_unique (List.cons.inj heq).1) (by simp)
  | name t' =>
    obtain ⟨ht, rfl⟩ := List.cons.inj heq
    obtain rfl : t' = t := Subtype.ext ht
    exact ⟨rfl, rfl⟩
  | emptyCall t' opening closing | call t' opening args closing =>
    obtain ⟨-, rfl⟩ := List.cons.inj heq
    exact absurd hends (not_ends_name t opening)

/-- Behind an opening parenthesis stands the expression in it. -/
lemma eq_group_of_opening {d : Derivation (.phrase .primary)} {opening : Token.Of .leftParen}
    (heq : d.tokens ++ rest = opening.val :: us) :
    ∃ inner closing, d = group opening inner closing ∧
      us = inner.tokens ++ (closing.val :: rest) := by
  cases d with
  | number value t | name t | emptyCall t opening' closing | call t opening' args closing =>
    exact absurd (Token.Of.kind_unique (List.cons.inj heq).1) (by simp)
  | group opening' inner closing =>
    rw [tokens, List.cons_append, List.append_assoc] at heq
    obtain ⟨hopening, rfl⟩ := List.cons.inj heq
    obtain rfl : opening' = opening := Subtype.ext hopening
    exact ⟨inner, closing, rfl, rfl⟩

/-- A name with an opening parenthesis behind it starts a call. -/
lemma eq_call_of_opening {d : Derivation (.phrase .primary)} {t : Token.Of .identifier}
    {opening : Token.Of .leftParen} (hends : d.Ends rest)
    (heq : d.tokens ++ rest = t.val :: opening.val :: us) :
    (∃ closing, d = emptyCall t opening closing ∧ us = closing.val :: rest) ∨
      ∃ args closing, d = call t opening args closing ∧
        us = args.tokens ++ (closing.val :: rest) := by
  cases d with
  | number value t' | group opening' inner closing =>
    exact absurd (Token.Of.kind_unique (List.cons.inj heq).1) (by simp)
  | name t' =>
    obtain ⟨-, rfl⟩ := List.cons.inj heq
    exact absurd hends (not_ends_name t' opening)
  | emptyCall t' opening' closing =>
    simp only [tokens, List.cons_append, List.nil_append, List.cons.injEq] at heq
    obtain ⟨ht, hopening, rfl⟩ := heq
    obtain rfl : t' = t := Subtype.ext ht
    obtain rfl : opening' = opening := Subtype.ext hopening
    exact .inl ⟨closing, rfl, rfl⟩
  | call t' opening' args closing =>
    simp only [tokens, List.cons_append, List.append_assoc, List.nil_append, List.cons.injEq] at heq
    obtain ⟨ht, hopening, rfl⟩ := heq
    obtain rfl : t' = t := Subtype.ext ht
    obtain rfl : opening' = opening := Subtype.ext hopening
    exact .inr ⟨args, closing, rfl, rfl⟩

/-- Arguments are over where they can end. -/
lemma eq_noMore_of_stops {d : Derivation .moreArguments} (hstops : moreArguments.Stops us)
    (heq : d.tokens ++ rest = us) : d = noMore ∧ us = rest := by
  cases d with
  | noMore => exact ⟨rfl, heq.symm⟩
  | more comma argument more' =>
    rw [← heq] at hstops
    exact absurd hstops (not_stops_comma comma)

/-- Behind a comma stands an argument. -/
lemma eq_more_of_comma {d : Derivation .moreArguments} {comma : Token.Of .comma}
    (hends : d.Ends rest) (heq : d.tokens ++ rest = comma.val :: us) :
    ∃ argument more', d = more comma argument more' ∧
      us = argument.tokens ++ (more'.tokens ++ rest) := by
  cases d with
  | noMore =>
    rw [tokens, List.nil_append] at heq
    rw [heq] at hends
    exact absurd hends.stops (not_stops_comma comma)
  | more comma' argument more' =>
    rw [tokens, List.cons_append, List.append_assoc] at heq
    obtain ⟨hcomma, rfl⟩ := List.cons.inj heq
    obtain rfl : comma' = comma := Subtype.ext hcomma
    exact ⟨argument, more', rfl, rfl⟩

end Derivation

end FunctionPlot
