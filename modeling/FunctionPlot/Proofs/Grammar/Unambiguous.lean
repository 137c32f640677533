/-
# The grammar is unambiguous

Derivations are read off from the left with one token of lookahead: a list of tokens determines the
derivation at its front and where it ends, if what stands behind the derivation does not continue it
(`Derivation.tokens_append_inj`).  A list of tokens then has at most one derivation
(`Derivation.tokens_injective`).

It follows how a derivation goes on behind the parts that were read.  For each place inside of a
production there is a lemma: a derivation whose tokens begin with those in front of the place is by
that production, has the parts that were read, and continues with the part that stands at the place.
-/
import FunctionPlot.Proofs.Grammar.Front

namespace FunctionPlot

namespace Derivation

open Nonterminal

variable {G : Nonterminal} {rest us : List Token} {c : Chain}

/-- Tokens determine the derivation at their front and where it ends, as long as what stands behind
the derivation does not continue it. -/
theorem tokens_append_inj (d₁ d₂ : Derivation G) {rest₁ rest₂ : List Token}
    (h : d₁.tokens ++ rest₁ = d₂.tokens ++ rest₂) (h₁ : d₁.Ends rest₁) (h₂ : d₂.Ends rest₂) :
    d₁ = d₂ ∧ rest₁ = rest₂ := by
  induction d₁ generalizing rest₁ rest₂ with
  | chain first more ihfirst ihmore =>
    cases d₂ with
    | chain first' more' =>
      simp only [tokens, List.append_assoc] at h
      obtain ⟨rfl, hmore⟩ := ihfirst first' h h₁.first h₂.first
      obtain ⟨rfl, rfl⟩ := ihmore more' hmore h₁.further h₂.further
      exact ⟨rfl, rfl⟩
  | done =>
    obtain ⟨rfl, rfl⟩ := eq_done_of_stops h₁.stops h.symm
    exact ⟨rfl, rfl⟩
  | step op mem sign operand more ihoperand ihmore =>
    simp only [tokens, List.cons_append, List.append_assoc] at h
    obtain ⟨operand', more', rfl, hoperand⟩ := eq_step_of_sign mem h₂ h.symm
    obtain ⟨rfl, hmore⟩ := ihoperand operand' hoperand h₁.operand h₂.operand
    obtain ⟨rfl, rfl⟩ := ihmore more' hmore h₁.further_step h₂.further_step
    exact ⟨rfl, rfl⟩
  | negation sign operand ih =>
    obtain ⟨operand', rfl, hoperand⟩ := eq_negation_of_sign h.symm
    obtain ⟨rfl, rfl⟩ := ih operand' hoperand h₁.negated h₂.negated
    exact ⟨rfl, rfl⟩
  | positive power ih =>
    cases d₂ with
    | negation sign operand => exact absurd h (tokens_power_ne_minus power sign _ _)
    | positive power' =>
      obtain ⟨rfl, rfl⟩ := ih power' h h₁.power h₂.power
      exact ⟨rfl, rfl⟩
  -- a base without an exponent can end where the other derivation has its caret, which it cannot
  | bare base ih =>
    cases d₂ with
    | bare base' =>
      obtain ⟨rfl, rfl⟩ := ih base' h h₁.base h₂.base
      exact ⟨rfl, rfl⟩
    | raised base' sign exponent =>
      simp only [tokens, List.append_assoc, List.cons_append] at h
      obtain ⟨-, rfl⟩ := ih base' h h₁.base (ends_caret base' sign)
      exact absurd h₁.stops (not_stops_caret sign)
  | raised base sign exponent ihbase ihexponent =>
    cases d₂ with
    | bare base' =>
      simp only [tokens, List.append_assoc, List.cons_append] at h
      obtain ⟨-, rfl⟩ := ihbase base' h (ends_caret base sign) h₂.base
      exact absurd h₂.stops (not_stops_caret sign)
    | raised base' sign' exponent' =>
      simp only [tokens, List.append_assoc, List.cons_append] at h
      obtain ⟨rfl, hcons⟩ := ihbase base' h (ends_caret base sign) (ends_caret base' sign')
      obtain ⟨hsign, hexponent⟩ := List.cons.inj hcons
      obtain rfl : sign = sign' := Subtype.ext hsign
      obtain ⟨rfl, rfl⟩ := ihexponent exponent' hexponent h₁.exponent h₂.exponent
      exact ⟨rfl, rfl⟩
  | number value t =>
    obtain ⟨rfl, rfl⟩ := eq_number_of_token h.symm
    exact ⟨rfl, rfl⟩
  | name t =>
    obtain ⟨rfl, rfl⟩ := eq_name_of_token h₁ h.symm
    exact ⟨rfl, rfl⟩
  -- the token behind the opening parenthesis tells calls with arguments from those without
  | emptyCall t opening closing =>
    rcases eq_call_of_opening h₂ h.symm with ⟨closing', rfl, hcons⟩ | ⟨args', closing', -, hargs⟩
    · obtain ⟨hclosing, rfl⟩ := List.cons.inj hcons
      obtain rfl : closing = closing' := Subtype.ext hclosing
      exact ⟨rfl, rfl⟩
    · exact absurd hargs.symm (tokens_arguments_ne_closing args' closing _ _)
  | call t opening args closing ih =>
    simp only [tokens, List.cons_append, List.append_assoc, List.nil_append] at h
    rcases eq_call_of_opening h₂ h.symm with ⟨closing', -, hargs⟩ | ⟨args', closing', rfl, hargs⟩
    · exact absurd hargs (tokens_arguments_ne_closing args closing' _ _)
    · obtain ⟨rfl, hcons⟩ := ih args' hargs (ends_arguments_closing args closing)
        (ends_arguments_closing args' closing')
      obtain ⟨hclosing, rfl⟩ := List.cons.inj hcons
      obtain rfl : closing = closing' := Subtype.ext hclosing
      exact ⟨rfl, rfl⟩
  | group opening inner closing ih =>
    simp only [tokens, List.cons_append, List.append_assoc, List.nil_append] at h
    obtain ⟨inner', closing', rfl, hinner⟩ := eq_group_of_opening h.symm
    obtain ⟨rfl, hcons⟩ := ih inner' hinner (ends_closing inner closing)
      (ends_closing inner' closing')
    obtain ⟨hclosing, rfl⟩ := List.cons.inj hcons
    obtain rfl : closing = closing' := Subtype.ext hclosing
    exact ⟨rfl, rfl⟩
  | arguments first more ihfirst ihmore =>
    cases d₂ with
    | arguments first' more' =>
      simp only [tokens, List.append_assoc] at h
      obtain ⟨rfl, hmore⟩ := ihfirst first' h h₁.argument h₂.argument
      obtain ⟨rfl, rfl⟩ := ihmore more' hmore h₁.further_arguments h₂.further_arguments
      exact ⟨rfl, rfl⟩
  | noMore =>
    obtain ⟨rfl, rfl⟩ := eq_noMore_of_stops h₁.stops h.symm
    exact ⟨rfl, rfl⟩
  | more comma argument more ihargument ihmore =>
    simp only [tokens, List.cons_append, List.append_assoc] at h
    obtain ⟨argument', more', rfl, hargument⟩ := eq_more_of_comma h₂ h.symm
    obtain ⟨rfl, hmore⟩ := ihargument argument' hargument h₁.argument_more h₂.argument_more
    obtain ⟨rfl, rfl⟩ := ihmore more' hmore h₁.further_more h₂.further_more
    exact ⟨rfl, rfl⟩

/-- A list of tokens has at most one derivation. -/
theorem tokens_injective : Function.Injective (tokens : Derivation G → List Token) := by
  intro d₁ d₂ h
  have h' : d₁.tokens ++ [] = d₂.tokens ++ [] := by rw [h]
  exact (tokens_append_inj d₁ d₂ h' d₁.ends_nil d₂.ends_nil).1

/-! ### How a derivation goes on behind the parts that were read -/

/-- Behind the first operand of a chain stand its steps. -/
lemma eq_chain_of_first {d : Derivation (.phrase (.chain c))}
    {first : Derivation (.phrase c.operand)} (hends : d.Ends rest) (hus : first.Ends us)
    (heq : d.tokens ++ rest = first.tokens ++ us) :
    ∃ more, d = chain first more ∧ us = more.tokens ++ rest := by
  cases d with
  | chain first' more =>
    rw [tokens, List.append_assoc] at heq
    obtain ⟨rfl, rfl⟩ := tokens_append_inj first' first heq hends.first hus
    exact ⟨more, rfl, rfl⟩

/-- Behind an operator of a chain and its operand stand further steps. -/
lemma eq_step_of_operand {d : Derivation (.steps c)} {op : Operator} (mem : op ∈ c.operators)
    {sign : Token.Of (.operator op)} {operand : Derivation (.phrase c.operand)}
    (hends : d.Ends rest) (hus : operand.Ends us)
    (heq : d.tokens ++ rest = sign.val :: (operand.tokens ++ us)) :
    ∃ more, d = step op mem sign operand more ∧ us = more.tokens ++ rest := by
  obtain ⟨operand', more, rfl, heq'⟩ := eq_step_of_sign mem hends heq
  obtain ⟨rfl, rfl⟩ := tokens_append_inj operand operand' heq' hus hends.operand
  exact ⟨more, rfl, rfl⟩

/-- Behind a base and a caret stands the exponent. -/
lemma eq_raised_of_sign {d : Derivation (.phrase .power)} {base : Derivation (.phrase .primary)}
    {sign : Token.Of (.operator .pow)} (hends : d.Ends rest)
    (heq : d.tokens ++ rest = base.tokens ++ sign.val :: us) :
    ∃ exponent, d = raised base sign exponent ∧ us = exponent.tokens ++ rest := by
  cases d with
  | bare base' =>
    obtain ⟨-, rfl⟩ := tokens_append_inj base' base heq hends.base (ends_caret base sign)
    exact absurd hends.stops (not_stops_caret sign)
  | raised base' sign' exponent =>
    rw [tokens, List.append_assoc, List.cons_append] at heq
    obtain ⟨rfl, hcons⟩ := tokens_append_inj base' base heq (ends_caret base' sign')
      (ends_caret base sign)
    obtain ⟨hsign, rfl⟩ := List.cons.inj hcons
    obtain rfl : sign' = sign := Subtype.ext hsign
    exact ⟨exponent, rfl, rfl⟩

/-- Behind the expression in parentheses stands a closing one. -/
lemma eq_group_of_inner {d : Derivation (.phrase .primary)} {opening : Token.Of .leftParen}
    {inner : Derivation .expression} (hus : inner.Ends us)
    (heq : d.tokens ++ rest = opening.val :: (inner.tokens ++ us)) :
    ∃ closing, d = group opening inner closing ∧ us = closing.val :: rest := by
  obtain ⟨inner', closing, rfl, heq'⟩ := eq_group_of_opening heq
  obtain ⟨rfl, rfl⟩ := tokens_append_inj inner inner' heq' hus (ends_closing inner' closing)
  exact ⟨closing, rfl, rfl⟩

/-- Behind the arguments of a call stands a closing parenthesis. -/
lemma eq_call_of_arguments {d : Derivation (.phrase .primary)} {t : Token.Of .identifier}
    {opening : Token.Of .leftParen} {args : Derivation .arguments}
    (hends : d.Ends rest) (hus : args.Ends us)
    (heq : d.tokens ++ rest = t.val :: opening.val :: (args.tokens ++ us)) :
    ∃ closing, d = call t opening args closing ∧ us = closing.val :: rest := by
  rcases eq_call_of_opening hends heq with ⟨closing, rfl, heq'⟩ | ⟨args', closing, rfl, heq'⟩
  · exact absurd heq' (tokens_arguments_ne_closing args closing _ _)
  · obtain ⟨rfl, rfl⟩ := tokens_append_inj args args' heq' hus
      (ends_arguments_closing args' closing)
    exact ⟨closing, rfl, rfl⟩

/-- Behind the first argument stand further ones. -/
lemma eq_arguments_of_first {d : Derivation .arguments} {first : Derivation .expression}
    (hends : d.Ends rest) (hus : first.Ends us) (heq : d.tokens ++ rest = first.tokens ++ us) :
    ∃ more, d = arguments first more ∧ us = more.tokens ++ rest := by
  cases d with
  | arguments first' more =>
    rw [tokens, List.append_assoc] at heq
    obtain ⟨rfl, rfl⟩ := tokens_append_inj first' first heq hends.argument hus
    exact ⟨more, rfl, rfl⟩

/-- Behind a comma and its argument stand further arguments. -/
lemma eq_more_of_argument {d : Derivation .moreArguments} {comma : Token.Of .comma}
    {argument : Derivation .expression} (hends : d.Ends rest) (hus : argument.Ends us)
    (heq : d.tokens ++ rest = comma.val :: (argument.tokens ++ us)) :
    ∃ more', d = more comma argument more' ∧ us = more'.tokens ++ rest := by
  obtain ⟨argument', more', rfl, heq'⟩ := eq_more_of_comma hends heq
  obtain ⟨rfl, rfl⟩ := tokens_append_inj argument argument' heq' hus hends.argument_more
  exact ⟨more', rfl, rfl⟩

end Derivation

end FunctionPlot
