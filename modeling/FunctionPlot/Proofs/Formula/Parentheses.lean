/-
# The fewest parentheses

A text has as many opening parentheses among its tokens as among its code units
(`TokenStream.openings_ofText`), so that those of a printed formula are counted in its text.

The text of a formula in a place of the grammar has at most as many of them as the tokens of any
derivation from there (`Derivation.suffices_openings`), since a part is put into parentheses only in
a place where every derivation of it is one of a primary in parentheses.
-/
import FunctionPlot.Proofs.Formula.Grouping
import FunctionPlot.Proofs.Formula.RoundTrip

namespace FunctionPlot

/-- How many opening parentheses there are among some tokens. -/
def openings (ts : List Token) : Nat := ts.countP (·.kind = .leftParen)

@[simp] lemma openings_nil : openings [] = 0 := rfl

@[simp] lemma openings_cons (t : Token) (ts : List Token) :
    openings (t :: ts) = openings ts + if t.kind = .leftParen then 1 else 0 := by
  simp [openings, List.countP_cons]

@[simp] lemma openings_append (ts us : List Token) :
    openings (ts ++ us) = openings ts + openings us :=
  List.countP_append

/-- How many opening parentheses there are in a text. -/
def Text.openings (t : Text) : Nat := t.count (unit '(')

/-! ### The parentheses of a text and of its tokens -/

namespace Lexicon

variable {t : Text}

lemma openings_eq_zero {p : CodeUnit → Bool} (h : ∀ u ∈ t, p u) (hp : p (unit '(') = false) :
    t.openings = 0 := by
  refine List.count_eq_zero.mpr fun hmem => ?_
  have hopening := h _ hmem
  rw [hp] at hopening
  cases hopening

lemma openings_of_mem_numeral (h : t ∈ numeral) : t.openings = 0 :=
  openings_eq_zero (isNumeralPart_of_mem_numeral h) (by decide)

lemma openings_of_isIdentifier (h : IsIdentifier t) : t.openings = 0 := by
  obtain ⟨first, rest, rfl, hfirst, hrest⟩ := h
  refine openings_eq_zero (p := isIdentifierPart) ?_ (by decide)
  exact List.forall_mem_cons.mpr ⟨TokenStream.isIdentifierPart_of_isIdentifierStart hfirst, hrest⟩

end Lexicon

lemma Token.openings_text {t : Token} (h : t.Spelled) :
    t.text.openings = if t.kind = .leftParen then 1 else 0 := by
  obtain ⟨kind, text, position⟩ := t
  cases kind with
  | number value => exact Lexicon.openings_of_mem_numeral h
  | identifier =>
    obtain ⟨first, rest, hfirst, hrest, rfl⟩ := Lexicon.mem_single_mul_star.mp h
    exact Lexicon.openings_of_isIdentifier ⟨first, rest, rfl, hfirst, hrest⟩
  | operator op =>
    obtain rfl : text = [op.sign] := h
    cases op <;> rfl
  | leftParen | rightParen | comma =>
    cases h
    rfl

namespace Text

@[simp] lemma openings_nil : openings [] = 0 := rfl

@[simp] lemma openings_append (s t : Text) : (s ++ t).openings = s.openings + t.openings :=
  List.count_append

lemma openings_cons_of_ne {u : CodeUnit} (h : u ≠ unit '(') (t : Text) :
    openings (u :: t) = openings t :=
  List.count_cons_of_ne h

@[simp] lemma openings_leftParen (t : Text) : openings (unit '(' :: t) = openings t + 1 :=
  List.count_cons_self

@[simp] lemma openings_rightParen (t : Text) : openings (unit ')' :: t) = openings t :=
  openings_cons_of_ne (by decide) t

end Text

namespace TokenStream

/-- If a text is read to its end, its tokens have all of its opening parentheses. -/
lemma openings_ofRest (source : Text) (position : Nat) (rest : Text)
    (h : (ofRest source position rest).fault? = none) :
    openings (ofRest source position rest).tokens = rest.openings := by
  fun_induction ofRest source position rest with
  | case1 => rfl
  | case2 position first rest hblank ih =>
    rw [ih h, Text.openings_cons_of_ne]
    rintro rfl
    revert hblank
    decide
  | case3 => cases h
  | case4 position first rest hblank kind more hlexeme ih =>
    have hspelled : Token.Spelled ⟨kind, first :: rest.take more, position⟩ :=
      (isLexeme_of_lexeme? hlexeme).1.longest.mem
    have hsplit : first :: rest = (first :: rest.take more) ++ rest.drop more := by simp
    rw [hsplit, Text.openings_append, Token.openings_text hspelled, cons, openings_cons, ih h,
      Nat.add_comm]

lemma openings_ofText {source : Text} (h : (ofText source).fault? = none) :
    FunctionPlot.openings (ofText source).tokens = source.openings :=
  openings_ofRest source 0 source h

end TokenStream

/-! ### The parentheses of a printed formula -/

lemma Numeral.openings_text (n : Numeral) : n.text.openings = 0 :=
  Lexicon.openings_of_mem_numeral (Lexicon.text_mem_numeral n)

/-- The strength that a level of the grammar needs. -/
def Level.strength : Level → Strength
  | .chain .additive => .additive
  | .chain .multiplicative => .multiplicative
  | .unary => .unary
  | .power => .power
  | .primary => .atom

namespace Formula

lemma openings_spaced (op : Operator) : op.spaced.openings = 0 := by cases op <;> decide

lemma openings_joined (ts : List Text) :
    (Text.joined ", " ts).openings = (ts.map Text.openings).sum := by
  cases ts with
  | nil => rfl
  | cons t ts =>
    have hmore : Text.openings (ts.flatMap ((Text.ofString ", ") ++ ·))
        = (ts.map Text.openings).sum := by
      rw [Text.openings, List.count_flatMap]
      refine congrArg List.sum (List.map_congr_left fun u _ => ?_)
      exact (Text.openings_append _ u).trans (Nat.zero_add _)
    rw [ReadAs.joined_cons, Text.openings_append, hmore, List.map_cons, List.sum_cons]

/-- How many opening parentheses the text of a formula has in a place of some level. -/
def openingsAt (level : Level) (f : Formula) : Nat :=
  (placed level.strength f.strength f.toText).openings

/-- How many opening parentheses the texts of some formulas have. -/
def sumOpenings (fs : List Formula) : Nat := (fs.map fun f => f.toText.openings).sum

variable {level level' : Level} {f : Formula}

lemma openingsAt_of_not_lt {actual : Strength} (hlevel : ¬ actual < level.strength)
    (h : f.strength = actual) : openingsAt level f = f.toText.openings := by
  rw [openingsAt, placed, h, if_neg hlevel]

lemma openingsAt_of_atom (level : Level) (h : f.strength = .atom) :
    openingsAt level f = f.toText.openings := by
  refine openingsAt_of_not_lt ?_ h
  cases level with
  | chain c => cases c <;> decide
  | unary | power | primary => decide

lemma openingsAt_expression (f : Formula) :
    openingsAt (.chain .additive) f = f.toText.openings :=
  openingsAt_of_not_lt (by cases f.strength <;> decide) rfl

/-- A place of a looser level takes no more parentheses. -/
lemma openingsAt_mono (h : level.strength.rank ≤ level'.strength.rank) (f : Formula) :
    openingsAt level f ≤ openingsAt level' f := by
  by_cases hlevel : f.strength < level.strength
  · have hlevel' : f.strength < level'.strength := Nat.lt_of_lt_of_le hlevel h
    rw [openingsAt, openingsAt, placed, placed, if_pos hlevel, if_pos hlevel']
  · rw [openingsAt_of_not_lt hlevel rfl, openingsAt, placed]
    split <;> simp

/-- Parentheses around a formula are enough for every place. -/
lemma openingsAt_le_group (level : Level) (f : Formula) :
    openingsAt level f ≤ openingsAt (.chain .additive) f + 1 := by
  rw [openingsAt_expression, openingsAt, placed]
  split <;> simp

lemma openingsAt_constant {value : Float} (position : Nat) (hfinite : value.isFinite)
    (hsign : ¬ Number.isNegative value) (level : Level) :
    openingsAt level (constant value position) = 0 := by
  obtain ⟨n, htext, -⟩ := Number.exists_numeral_written hfinite hsign
  have hstrength : strength (constant value position) = .atom := if_neg hsign
  rw [openingsAt_of_atom level hstrength, toText, htext, n.openings_text]

lemma openingsAt_symbol {name : Text} (h : IsIdentifier name) (position : Nat) (level : Level) :
    openingsAt level (symbol name position) = 0 := by
  rw [openingsAt_of_atom level rfl, toText, Lexicon.openings_of_isIdentifier h]

lemma openingsAt_negation (operand : Formula) (position : Nat) :
    openingsAt .unary (negation operand position) = openingsAt .unary operand := by
  have hunary : ¬ Strength.unary < Level.unary.strength := by decide
  rw [openingsAt_of_not_lt hunary rfl, toText, Text.openings_cons_of_ne (by decide)]
  rfl

lemma openings_binary (op : Operator) (left right : Formula) (position : Nat) :
    (binary op left right position).toText.openings
      = (placed op.leftStrength left.strength left.toText).openings
        + (placed op.rightStrength right.strength right.toText).openings := by
  rw [toText, Text.openings_append, Text.openings_append, openings_spaced, Nat.add_zero]

lemma openingsAt_chain {c : Chain} {op : Operator} (mem : op ∈ c.operators)
    (left right : Formula) (position : Nat) :
    openingsAt (.chain c) (binary op left right position)
      = openingsAt (.chain c) left + openingsAt c.operand right := by
  have hplain : ¬ op.strength < (Level.chain c).strength := by
    cases c <;> revert op <;> decide
  have hleft : op.leftStrength = (Level.chain c).strength := by
    cases c <;> revert op <;> decide
  have hright : op.rightStrength = c.operand.strength := by
    cases c <;> revert op <;> decide
  rw [openingsAt_of_not_lt hplain rfl, openings_binary, hleft, hright]
  rfl

lemma openingsAt_power (left right : Formula) (position : Nat) :
    openingsAt .power (binary .pow left right position)
      = openingsAt .primary left + openingsAt .unary right := by
  have hpower : ¬ Strength.power < Level.power.strength := by decide
  rw [openingsAt_of_not_lt hpower rfl, openings_binary]
  rfl

lemma openingsAt_call {function : Text} (h : IsIdentifier function) (arguments : List Formula)
    (position : Nat) (level : Level) :
    openingsAt level (call function arguments position) = sumOpenings arguments + 1 := by
  rw [openingsAt_of_atom level rfl, toText, List.append_assoc, List.cons_append,
    Text.openings_append, Lexicon.openings_of_isIdentifier h, Text.openings_leftParen,
    Text.openings_append, toTexts_eq_map, openings_joined, List.map_map, Nat.zero_add]
  rfl

end Formula

/-- With `n` opening parentheses there are enough for the text of what a derivation stands for. -/
def Nonterminal.Suffices : (G : Nonterminal) → Nat → G.Meaning → Prop
  | phrase level, n, f => Formula.openingsAt level f ≤ n
  | steps c, n, extend => ∀ left : Formula,
      Formula.openingsAt (.chain c) (extend left) ≤ Formula.openingsAt (.chain c) left + n
  | arguments, n, fs => Formula.sumOpenings fs ≤ n
  | moreArguments, n, fs => Formula.sumOpenings fs ≤ n

namespace Derivation

/-- The tokens of a derivation have enough opening parentheses for the text of its meaning. -/
theorem suffices_openings {G : Nonterminal} (d : Derivation G) (h : ∀ t ∈ d.tokens, t.Readable) :
    G.Suffices (openings d.tokens) d.meaning := by
  induction d with
  | @chain c first rest ihfirst ihrest =>
    obtain ⟨hfirst, hrest⟩ := List.forall_mem_append.mp h
    have hc : (Level.chain c).strength.rank ≤ c.operand.strength.rank := by cases c <;> decide
    calc Formula.openingsAt (.chain c) (rest.meaning first.meaning)
      _ ≤ Formula.openingsAt (.chain c) first.meaning + openings rest.tokens := ihrest hrest _
      _ ≤ Formula.openingsAt c.operand first.meaning + openings rest.tokens :=
        Nat.add_le_add_right (Formula.openingsAt_mono hc _) _
      _ ≤ openings first.tokens + openings rest.tokens := Nat.add_le_add_right (ihfirst hfirst) _
      _ = openings (first.tokens ++ rest.tokens) := (openings_append _ _).symm
  | done => exact fun left => Nat.le_refl _
  | @step c op mem sign operand rest ihoperand ihrest =>
    obtain ⟨-, hmore⟩ := List.forall_mem_cons.mp h
    obtain ⟨hoperand, hrest⟩ := List.forall_mem_append.mp hmore
    intro left
    have hstep := ihrest hrest (.binary op left operand.meaning sign.val.position)
    rw [Formula.openingsAt_chain mem] at hstep
    have hright : Formula.openingsAt c.operand operand.meaning ≤ openings operand.tokens :=
      ihoperand hoperand
    show Formula.openingsAt (.chain c) (rest.meaning _) ≤ _
    rw [tokens, openings_cons, openings_append]
    omega
  | negation sign operand ih =>
    have hoperand : Formula.openingsAt .unary operand.meaning ≤ openings operand.tokens :=
      ih (List.forall_mem_cons.mp h).2
    show Formula.openingsAt .unary (.negation operand.meaning _) ≤ _
    rw [Formula.openingsAt_negation, tokens, openings_cons]
    exact Nat.le_add_right_of_le hoperand
  | positive power ih => exact (Formula.openingsAt_mono (by decide) _).trans (ih h)
  | bare base ih => exact (Formula.openingsAt_mono (by decide) _).trans (ih h)
  | raised base sign exponent ihbase ihexponent =>
    obtain ⟨hbase, hmore⟩ := List.forall_mem_append.mp h
    have hleft : Formula.openingsAt .primary base.meaning ≤ openings base.tokens := ihbase hbase
    have hright : Formula.openingsAt .unary exponent.meaning ≤ openings exponent.tokens :=
      ihexponent (List.forall_mem_cons.mp hmore).2
    show Formula.openingsAt .power (.binary .pow base.meaning exponent.meaning _) ≤ _
    rw [Formula.openingsAt_power, tokens, openings_append, openings_cons]
    omega
  | number value t =>
    obtain ⟨hlexical, hfinite⟩ := h t.val (List.mem_singleton.mpr rfl)
    have hzero := Formula.openingsAt_constant t.val.position (hfinite value t.property)
      (hlexical.not_isNegative value t.property) .primary
    exact hzero.le.trans (Nat.zero_le _)
  | name t =>
    have hname := (h t.val (List.mem_singleton.mpr rfl)).1.isIdentifier t.property
    exact (Formula.openingsAt_symbol hname _ _).le.trans (Nat.zero_le _)
  | emptyCall t opening closing =>
    have hname := (h t.val List.mem_cons_self).1.isIdentifier t.property
    show Formula.openingsAt .primary (.call t.val.text [] _) ≤ _
    rw [Formula.openingsAt_call hname, tokens, openings_cons, openings_cons,
      if_pos opening.property]
    exact Nat.le_add_right_of_le (Nat.le_add_left _ _)
  | call t opening args closing ih =>
    have hname := (h t.val List.mem_cons_self).1.isIdentifier t.property
    have hmore := (List.forall_mem_cons.mp (List.forall_mem_cons.mp h).2).2
    have hargs : Formula.sumOpenings args.meaning ≤ openings args.tokens :=
      ih (List.forall_mem_append.mp hmore).1
    show Formula.openingsAt .primary (.call t.val.text args.meaning _) ≤ _
    rw [Formula.openingsAt_call hname, tokens, openings_cons, openings_cons, openings_append,
      if_pos opening.property]
    omega
  | group opening inner closing ih =>
    -- the only case in which parentheses make a formula fit into a tighter place
    have hinner : Formula.openingsAt (.chain .additive) inner.meaning ≤ openings inner.tokens :=
      ih (List.forall_mem_append.mp (List.forall_mem_cons.mp h).2).1
    have hgroup := Formula.openingsAt_le_group .primary inner.meaning
    show Formula.openingsAt .primary inner.meaning ≤ _
    rw [tokens, openings_cons, openings_append, if_pos opening.property]
    omega
  | arguments first rest ihfirst ihrest =>
    obtain ⟨hfirst, hrest⟩ := List.forall_mem_append.mp h
    have hargument : Formula.openingsAt (.chain .additive) first.meaning ≤ openings first.tokens :=
      ihfirst hfirst
    rw [Formula.openingsAt_expression] at hargument
    have hmore : Formula.sumOpenings rest.meaning ≤ openings rest.tokens := ihrest hrest
    show Formula.sumOpenings (first.meaning :: rest.meaning) ≤ _
    rw [Formula.sumOpenings, List.map_cons, List.sum_cons, tokens, openings_append]
    exact Nat.add_le_add hargument hmore
  | noMore => exact Nat.le_refl _
  | more comma argument rest ihargument ihrest =>
    obtain ⟨-, hmore⟩ := List.forall_mem_cons.mp h
    obtain ⟨hfirst, hrest⟩ := List.forall_mem_append.mp hmore
    have hargument :
        Formula.openingsAt (.chain .additive) argument.meaning ≤ openings argument.tokens :=
      ihargument hfirst
    rw [Formula.openingsAt_expression] at hargument
    have hmore : Formula.sumOpenings rest.meaning ≤ openings rest.tokens := ihrest hrest
    show Formula.sumOpenings (argument.meaning :: rest.meaning) ≤ _
    rw [Formula.sumOpenings, List.map_cons, List.sum_cons, tokens, openings_cons, openings_append]
    exact Nat.le_add_right_of_le (Nat.add_le_add hargument hmore)

end Derivation

namespace Formula

variable {f g : Formula} {source : Text}

/-- A text has at least as many opening parentheses as the text of the formula parsed from it. -/
lemma openings_toText_le (h : ofText source = .ok f) :
    f.toText.openings ≤ openings (TokenStream.ofText source).tokens := by
  obtain ⟨d, htokens, -, rfl, -⟩ := exists_derivation h
  rw [← htokens, ← openingsAt_expression]
  exact d.suffices_openings fun t ht => readable_tokens h t (htokens ▸ ht)

/-- A text that is parsed is read to its end. -/
lemma fault?_ofText (h : ofText source = .ok f) : (TokenStream.ofText source).fault? = none := by
  obtain ⟨d, -, hfault, -⟩ := exists_derivation h
  exact hfault

/-- Among the texts that are parsed to a formula, up to positions, the text of the formula has the
fewest opening parentheses.  All of them have the same tokens as long as only the parentheses of
calls are counted among these. -/
theorem toText_fewest_parentheses (h : ofText source = .ok f) :
    openings (TokenStream.ofText f.toText).tokens ≤ openings (TokenStream.ofText source).tokens ∧
    (ungrouped (TokenStream.ofText f.toText).tokens).map Token.content
      = (ungrouped (TokenStream.ofText source).tokens).map Token.content ∧
    IsLeast {n | ∃ source' g, ofText source' = .ok g ∧ g.stripped = f.stripped ∧
        openings (TokenStream.ofText source').tokens = n}
      (openings (TokenStream.ofText f.toText).tokens) := by
  obtain ⟨g, hg, hstripped⟩ := exists_ofText_toText h
  have hprinted := TokenStream.openings_ofText (fault?_ofText hg)
  have hle : ∀ {source' g'}, ofText source' = .ok g' → g'.stripped = f.stripped →
      openings (TokenStream.ofText f.toText).tokens
        ≤ openings (TokenStream.ofText source').tokens := by
    intro source' g' hg' hstripped'
    rw [hprinted, ← toText_eq_of_stripped hstripped']
    exact openings_toText_le hg'
  refine ⟨hle h rfl, ?_, ⟨f.toText, g, hg, hstripped, rfl⟩, ?_⟩
  · rw [contents_ungrouped hg, contents_ungrouped h, contents_eq_of_stripped hstripped]
  · rintro n ⟨source', g', hg', hstripped', rfl⟩
    exact hle hg' hstripped'

theorem toText_fewest_parentheses_difference :
    ∃ f, ofText "(f(a))-((b-c))" = .ok f ∧ f.toText = "f(a) - (b - c)" ∧
      openings (TokenStream.ofText "(f(a))-((b-c))").tokens = 4 ∧
      IsLeast {n | ∃ source g, ofText source = .ok g ∧ g.stripped = f.stripped ∧
        openings (TokenStream.ofText source).tokens = n} 2 := by
  have hparse : ofText "(f(a))-((b-c))" = .ok (.binary .sub (.call "f" [.symbol "a" 3] 1)
      (.binary .sub (.symbol "b" 9) (.symbol "c" 11) 10) 6) := by cbv
  have htext : toText (.binary .sub (.call "f" [.symbol "a" 3] 1)
      (.binary .sub (.symbol "b" 9) (.symbol "c" 11) 10) 6) = "f(a) - (b - c)" := by decide
  obtain ⟨g, hg, -⟩ := exists_ofText_toText hparse
  obtain ⟨-, -, hleast⟩ := toText_fewest_parentheses hparse
  refine ⟨_, hparse, htext, ?_, ?_⟩
  · rw [TokenStream.openings_ofText (fault?_ofText hparse)]
    decide
  · rw [TokenStream.openings_ofText (fault?_ofText hg), htext] at hleast
    exact hleast

end Formula

end FunctionPlot
