/-
# Formulas in the order of their tokens

Each node of a formula comes from one token: from the number, the name or the operator that it is
labelled with.  In order, the nodes of a left operand come before the operator, and those of all
other parts behind the token of their node.  Read in this order, the labels of a formula are those
of the tokens that it is parsed from, in the order of the tokens and with nothing lost or added
(`Formula.inOrder_eq_tokens`); only parentheses and commas have no label.

This goes by induction over derivations.  The labels of the operand in front of the steps of a chain
stay in front, since each step makes it the left operand of its operator (`Nonterminal.Lists`).
-/
import FunctionPlot.Proofs.Formula.Tokenization
import FunctionPlot.Proofs.Parser.Verdict

namespace FunctionPlot

/-- What a token gives to a formula. -/
inductive Mark where
  /-- A number. -/
  | number (value : Float)
  /-- The name of a variable or a function. -/
  | name (text : Text)
  /-- An operator, also that of a negation. -/
  | operator (op : Operator)
deriving DecidableEq

/-- The text of a mark.  A number has none of its own, as it can be written in many ways. -/
def Mark.text? : Mark → Option Text
  | number _ => none
  | name text => some text
  | operator op => some [op.sign]

/-- A mark and the offset of its token. -/
structure Label where
  /-- What the token gives to the formula. -/
  mark : Mark
  /-- Where the token stands. -/
  position : Nat
deriving DecidableEq

/-- The label of a token; parentheses and commas have none. -/
def Token.label? (t : Token) : Option Label :=
  match t.kind with
  | .number value => some ⟨.number value, t.position⟩
  | .identifier => some ⟨.name t.text, t.position⟩
  | .operator op => some ⟨.operator op, t.position⟩
  | _ => none

namespace Formula

/-- The mark of the root of a formula. -/
def mark : Formula → Mark
  | constant value _ => .number value
  | symbol name _ => .name name
  | negation _ _ => .operator .sub
  | binary op _ _ _ => .operator op
  | call function _ _ => .name function

/-- The label of the root of a formula. -/
def label (f : Formula) : Label := ⟨f.mark, f.position⟩

mutual

/-- The nodes of a formula in the order of their tokens.  Each node stands for the part of the
formula of which it is the root. -/
def inOrder : Formula → List Formula
  | constant value position => [constant value position]
  | symbol name position => [symbol name position]
  | negation operand position => negation operand position :: operand.inOrder
  | binary op left right position =>
    left.inOrder ++ binary op left right position :: right.inOrder
  | call function arguments position => call function arguments position :: allInOrder arguments

/-- The nodes of some formulas, one formula after the other. -/
def allInOrder : List Formula → List Formula
  | [] => []
  | f :: rest => f.inOrder ++ allInOrder rest

end

lemma allInOrder_eq_flatMap (formulas : List Formula) :
    allInOrder formulas = formulas.flatMap inOrder := by
  induction formulas with
  | nil => rfl
  | cons f rest ih => rw [allInOrder, ih, List.flatMap_cons]

/-- The labels of a formula in the order of their tokens. -/
def labels (f : Formula) : List Label := f.inOrder.map label

@[simp] lemma labels_constant (value : Float) (position : Nat) :
    (constant value position).labels = [⟨.number value, position⟩] := rfl

@[simp] lemma labels_symbol (name : Text) (position : Nat) :
    (symbol name position).labels = [⟨.name name, position⟩] := rfl

@[simp] lemma labels_negation (operand : Formula) (position : Nat) :
    (negation operand position).labels = ⟨.operator .sub, position⟩ :: operand.labels := rfl

@[simp] lemma labels_binary (op : Operator) (left right : Formula) (position : Nat) :
    (binary op left right position).labels
      = left.labels ++ ⟨.operator op, position⟩ :: right.labels := by
  simp [labels, inOrder, label, mark, Formula.position]

@[simp] lemma labels_call (function : Text) (arguments : List Formula) (position : Nat) :
    (call function arguments position).labels
      = ⟨.name function, position⟩ :: arguments.flatMap labels := by
  rw [labels, inOrder, allInOrder_eq_flatMap, List.map_cons, List.map_flatMap]
  rfl

end Formula

/-! ### The labels of a derivation -/

/-- What a derivation from a nonterminal stands for has some labels.  Steps add them behind those of
the formula in front of them. -/
def Nonterminal.Lists : (G : Nonterminal) → List Label → G.Meaning → Prop
  | phrase _, ls, f => Formula.labels f = ls
  | steps _, ls, extend => ∀ left : Formula, (extend left).labels = left.labels ++ ls
  | arguments, ls, formulas => formulas.flatMap Formula.labels = ls
  | moreArguments, ls, formulas => formulas.flatMap Formula.labels = ls

namespace Token

@[simp] lemma label?_number {value : Float} (t : Token.Of (.number value)) :
    t.val.label? = some ⟨.number value, t.val.position⟩ := by
  simp [label?, t.property]

@[simp] lemma label?_name (t : Token.Of .identifier) :
    t.val.label? = some ⟨.name t.val.text, t.val.position⟩ := by
  simp [label?, t.property]

@[simp] lemma label?_operator {op : Operator} (t : Token.Of (.operator op)) :
    t.val.label? = some ⟨.operator op, t.val.position⟩ := by
  simp [label?, t.property]

@[simp] lemma label?_leftParen (t : Token.Of .leftParen) : t.val.label? = none := by
  simp [label?, t.property]

@[simp] lemma label?_rightParen (t : Token.Of .rightParen) : t.val.label? = none := by
  simp [label?, t.property]

@[simp] lemma label?_comma (t : Token.Of .comma) : t.val.label? = none := by
  simp [label?, t.property]

lemma position_of_label? {t : Token} {l : Label} (h : t.label? = some l) :
    l.position = t.position := by
  rw [label?] at h
  split at h <;> cases h <;> rfl

/-- A name or an operator is the text of its token. -/
lemma text_of_label? {t : Token} {l : Label} {text : Text} (hlanguage : t.text ∈ t.kind.language)
    (h : t.label? = some l) (htext : l.mark.text? = some text) : t.text = text := by
  rw [label?] at h
  split at h
  · cases h
    cases htext
  · cases h
    cases htext
    rfl
  · rename_i op hkind
    cases h
    cases htext
    rw [hkind] at hlanguage
    exact hlanguage
  · cases h

end Token

/-- What a derivation stands for has the labels of its tokens. -/
theorem Derivation.lists_meaning {G : Nonterminal} (d : Derivation G) :
    G.Lists (d.tokens.filterMap Token.label?) d.meaning := by
  induction d with
  | chain first rest ihfirst ihrest =>
    show Formula.labels (rest.meaning first.meaning) = _
    rw [ihrest, ihfirst, tokens, List.filterMap_append]
  | done => exact fun left => (List.append_nil _).symm
  | step op mem sign operand rest ihoperand ihrest =>
    intro left
    show Formula.labels (rest.meaning _) = _
    rw [ihrest, Formula.labels_binary, ihoperand]
    simp [tokens]
  | negation sign operand ih =>
    show Formula.labels (.negation operand.meaning _) = _
    rw [Formula.labels_negation, ih]
    simp [tokens]
  | positive power ih => exact ih
  | bare base ih => exact ih
  | raised base sign exponent ihbase ihexponent =>
    show Formula.labels (.binary .pow base.meaning exponent.meaning _) = _
    rw [Formula.labels_binary, ihbase, ihexponent]
    simp [tokens]
  | number value t =>
    show Formula.labels (.constant value t.val.position) = _
    simp [tokens]
  | name t =>
    show Formula.labels (.symbol t.val.text t.val.position) = _
    simp [tokens]
  | emptyCall t opening closing =>
    show Formula.labels (.call t.val.text [] t.val.position) = _
    simp [tokens]
  | call t opening args closing ih =>
    show Formula.labels (.call t.val.text args.meaning _) = _
    rw [Formula.labels_call, ih]
    simp [tokens]
  | group opening inner closing ih =>
    show Formula.labels inner.meaning = _
    rw [ih]
    simp [tokens]
  | arguments first rest ihfirst ihrest =>
    show (first.meaning :: rest.meaning).flatMap Formula.labels = _
    rw [List.flatMap_cons, ihfirst, ihrest, tokens, List.filterMap_append]
  | noMore => rfl
  | more comma argument rest ihargument ihrest =>
    show (argument.meaning :: rest.meaning).flatMap Formula.labels = _
    rw [List.flatMap_cons, ihargument, ihrest]
    simp [tokens]

namespace Formula

variable {source text : Text} {stream : TokenStream} {f g : Formula}

/-- The labels of a formula are those of the tokens that it is parsed from. -/
lemma labels_ofStream (h : ofStream stream source = .ok f) :
    f.labels = stream.tokens.filterMap Token.label? := by
  obtain ⟨d, htokens, -, rfl, -⟩ := exists_derivation h
  rw [← htokens]
  exact d.lists_meaning

/-! ### The labels of a text -/

/-- The nodes of a formula stand in a text in their order. -/
lemma pairwise_inOrder (h : ofText source = .ok f) :
    f.inOrder.Pairwise fun g g' => g.position < g'.position := by
  have hlabels : f.labels.Pairwise fun l l' => l.position < l'.position := by
    rw [labels_ofStream h, List.pairwise_filterMap]
    refine (TokenStream.scanned_ofText source).sorted.imp ?_
    rintro t u ⟨hlt, -⟩ l hl l' hl'
    rwa [Token.position_of_label? hl, Token.position_of_label? hl']
  rwa [labels, List.pairwise_map] at hlabels

/-- A node of a formula comes from a token of the text. -/
lemma exists_token (h : ofText source = .ok f) (hg : g ∈ f.inOrder) :
    ∃ t ∈ (TokenStream.ofText source).tokens, t.label? = some g.label := by
  have hmem : g.label ∈ f.labels := List.mem_map_of_mem hg
  rwa [labels_ofStream h, List.mem_filterMap] at hmem

/-- A name or an operator stands in the text at the position of its node. -/
lemma front_of_mem_inOrder (h : ofText source = .ok f) (hg : g ∈ f.inOrder)
    (htext : g.mark.text? = some text) : text <+: source.drop g.position := by
  obtain ⟨t, ht, hlabel⟩ := exists_token h hg
  have hposition : g.position = t.position := Token.position_of_label? hlabel
  have hlexeme := ((TokenStream.scanned_ofText source).stands t ht).longest
  have hmem := Token.text_of_label? hlexeme.mem hlabel htext
  rw [hposition, ← hmem]
  exact hlexeme.front

/-- The nodes of a formula, in order, are the numbers, the names and the operators among the tokens
that it is parsed from: none is lost, none is added, and each has the position of its token.  For
the tokens of a text the positions increase strictly, and every name and every operator stands in
the text at the position of its node. -/
theorem inOrder_eq_tokens :
    (∀ ts source f, ofTokens ts source = .ok f →
      f.inOrder.map label = ts.filterMap Token.label?) ∧
    ∀ source f, ofText source = .ok f →
      f.inOrder.map label = (TokenStream.ofText source).tokens.filterMap Token.label? ∧
      (f.inOrder.map position).Pairwise (· < ·) ∧
      ∀ g ∈ f.inOrder, ∀ text, g.mark.text? = some text → text <+: source.drop g.position := by
  refine ⟨fun ts source f h => labels_ofStream h, fun source f h => ⟨labels_ofStream h, ?_, ?_⟩⟩
  · rw [List.pairwise_map]
    exact pairwise_inOrder h
  · intro g hg text htext
    exact front_of_mem_inOrder h hg htext

theorem inOrder_eq_tokens_call : ∃ f, ofText "z - -max((x), y)*x" = .ok f ∧
    f.inOrder.map label = [⟨.name "z", 0⟩, ⟨.operator .sub, 2⟩, ⟨.operator .sub, 4⟩,
      ⟨.name "max", 5⟩, ⟨.name "x", 10⟩, ⟨.name "y", 14⟩, ⟨.operator .mul, 16⟩, ⟨.name "x", 17⟩] ∧
    f.inOrder.map label
      = (TokenStream.ofText "z - -max((x), y)*x").tokens.filterMap Token.label? ∧
    (f.inOrder.map position).Pairwise (· < ·) ∧
    ∀ g ∈ f.inOrder, ∀ text, g.mark.text? = some text →
      text <+: (Text.ofString "z - -max((x), y)*x").drop g.position := by
  have hparse : ofText "z - -max((x), y)*x" = .ok (.binary .sub (.symbol "z" 0)
      (.binary .mul (.negation (.call "max" [.symbol "x" 10, .symbol "y" 14] 5) 4) (.symbol "x" 17)
        16) 2) := by cbv
  exact ⟨_, hparse, rfl, inOrder_eq_tokens.2 _ _ hparse⟩

end Formula

end FunctionPlot
