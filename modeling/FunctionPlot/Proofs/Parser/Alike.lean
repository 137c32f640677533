/-
# Parsers with the same tokens in front of them

A parser sees its source and the positions of its tokens only to build nodes and errors.  So two
parsers that have the same tokens up to their positions (`Parser.Alike`) do the same: they build
the same formula up to the positions, or stop in front of the same token and expect the same, or
meet the errors behind their tokens (`Formula.ofStream_alike`).

Which positions count as the same is told by a map `m`: those that it sends to the same place.  The
errors behind the tokens are related by `F`.  Each action of the parser keeps the relation
(`ActsAlike`), and a compound action keeps it because its parts do.
-/
import FunctionPlot.Proofs.Formula.Normal
import FunctionPlot.Proofs.Parser.Answer

namespace FunctionPlot

/-- A token with its position mapped. -/
def Token.mapPosition (m : Nat → Nat) (t : Token) : Token := { t with position := m t.position }

namespace Formula

mutual

/-- A formula with its positions mapped. -/
def mapPosition (m : Nat → Nat) : Formula → Formula
  | constant value position => constant value (m position)
  | symbol name position => symbol name (m position)
  | negation operand position => negation (operand.mapPosition m) (m position)
  | binary op left right position =>
    binary op (left.mapPosition m) (right.mapPosition m) (m position)
  | call function arguments position => call function (mapPositions m arguments) (m position)

/-- Some formulas with their positions mapped. -/
def mapPositions (m : Nat → Nat) : List Formula → List Formula
  | [] => []
  | f :: rest => f.mapPosition m :: mapPositions m rest

end

variable {m : Nat → Nat} {f g : Formula}

@[simp] lemma mapPositions_eq_map (formulas : List Formula) :
    mapPositions m formulas = formulas.map (mapPosition m) := by
  induction formulas with
  | nil => rfl
  | cons f rest ih => rw [mapPositions, List.map_cons, ih]

lemma height_mapPosition (f : Formula) : (f.mapPosition m).height = f.height := by
  induction f with
  | constant value position => rfl
  | symbol name position => rfl
  | negation operand position ih => rw [mapPosition, height, height, ih]
  | binary op left right position ihleft ihright =>
    rw [mapPosition, height, height, ihleft, ihright]
  | call function arguments position ih =>
    rw [mapPosition, height, height, mapPositions_eq_map, greatestHeight_map ih]

lemma height_eq_of_mapPosition (h : f.mapPosition m = g.mapPosition m) : f.height = g.height := by
  rw [← height_mapPosition (m := m) f, h, height_mapPosition]

/-- Without its positions a formula has all of them at zero. -/
lemma mapPosition_zero (f : Formula) : f.mapPosition (fun _ => 0) = f.stripped := by
  induction f with
  | constant value position => rfl
  | symbol name position => rfl
  | negation operand position ih => rw [mapPosition, stripped, ih]
  | binary op left right position ihleft ihright => rw [mapPosition, stripped, ihleft, ihright]
  | call function arguments position ih =>
    rw [mapPosition, stripped, mapPositions_eq_map, strippedAll_eq_map, List.map_congr_left ih]

end Formula

namespace Parser

/-- Two parsers with the same tokens in front of them and equally deep. -/
structure Alike (m : Nat → Nat) (F : FormulaError → FormulaError → Prop) (p q : Parser) : Prop where
  /-- The tokens that are looked at are the same. -/
  current : p.current?.map (Token.mapPosition m) = q.current?.map (Token.mapPosition m)
  /-- The tokens behind them are the same. -/
  behind : p.stream.tokens.map (Token.mapPosition m) = q.stream.tokens.map (Token.mapPosition m)
  /-- The errors behind the tokens correspond. -/
  fault : Option.Rel F p.stream.fault? q.stream.fault?
  /-- The depth is the same. -/
  depth : p.depth = q.depth

/-- What a parser can say that it expected. -/
def expectations : List Text := ["expression", "')'", "end of input", "finite number"]

/-- Two parsers fail in the same way: in front of the same token, or with the errors behind their
tokens. -/
inductive FailsAlike (m : Nat → Nat) (F : FormulaError → FormulaError → Prop) :
    FormulaError → FormulaError → Prop
  | mismatch {p q : Parser} {expected : Text} (h : p.Alike m F q)
      (mem : expected ∈ expectations) (reason? : Option Text) :
      FailsAlike m F (p.mismatch expected reason?) (q.mismatch expected reason?)
  | fault {e e' : FormulaError} (h : F e e') : FailsAlike m F e e'

variable {m : Nat → Nat} {F : FormulaError → FormulaError → Prop} {p q : Parser}

/-- What the first of two parsers that fail in the same way fails with. -/
lemma FailsAlike.exists_mismatch {e e' : FormulaError} (h : FailsAlike m F e e') :
    (∃ p : Parser, ∃ expected ∈ expectations, ∃ reason?, e = p.mismatch expected reason?) ∨
      F e e' := by
  cases h with
  | mismatch h mem reason? => exact .inl ⟨_, _, mem, reason?, rfl⟩
  | fault h => exact .inr h

namespace Alike

/-- The current tokens have the same kind and the same text. -/
lemma current_cases (h : p.Alike m F q) : (p.current? = none ∧ q.current? = none) ∨
    ∃ kind text i j, p.current? = some ⟨kind, text, i⟩ ∧ q.current? = some ⟨kind, text, j⟩ ∧
      m i = m j := by
  have hcurrent := h.current
  rcases hp : p.current? with _ | ⟨kind, text, i⟩
  · rw [hp] at hcurrent
    exact .inl ⟨rfl, Option.map_eq_none_iff.mp hcurrent.symm⟩
  · rw [hp] at hcurrent
    obtain ⟨⟨kind', text', j⟩, hq, htoken⟩ := Option.map_eq_some_iff.mp hcurrent.symm
    simp only [Token.mapPosition, Token.mk.injEq] at htoken
    obtain ⟨rfl, rfl, hposition⟩ := htoken
    exact .inr ⟨_, _, i, j, rfl, hq, hposition.symm⟩

lemma found_eq (h : p.Alike m F q) : p.found = q.found := by
  rcases h.current_cases with ⟨hp, hq⟩ | ⟨kind, text, i, j, hp, hq, -⟩
  · rw [found, found, hp, hq]
  · rw [found, found, hp, hq]

lemma isSome_eq (h : p.Alike m F q) : p.current?.isSome = q.current?.isSome := by
  rcases h.current_cases with ⟨hp, hq⟩ | ⟨kind, text, i, j, hp, hq, -⟩
  · rw [hp, hq]
  · rw [hp, hq]
    rfl

lemma isNone_eq (h : p.Alike m F q) : p.current?.isNone = q.current?.isNone := by
  rw [← Option.not_isSome, ← Option.not_isSome, h.isSome_eq]

lemma any_kind_eq (h : p.Alike m F q) (kind : TokenKind) :
    p.current?.any (·.kind = kind) = q.current?.any (·.kind = kind) := by
  rcases h.current_cases with ⟨hp, hq⟩ | ⟨kind, text, i, j, hp, hq, -⟩
  · rw [hp, hq]
  · rw [hp, hq]
    rfl

lemma remaining_eq (h : p.Alike m F q) : p.remaining = q.remaining := by
  have hbehind := congrArg List.length h.behind
  have hcurrent := congrArg (fun t : Option Token => t.toList.length) h.current
  simp only [List.length_map] at hbehind
  rcases h.current_cases with ⟨hp, hq⟩ | ⟨kind, text, i, j, hp, hq, -⟩
  · rw [remaining, remaining, hp, hq, hbehind]
  · rw [remaining, remaining, hp, hq, hbehind]
    rfl

end Alike

end Parser

namespace Parsing

open FunctionPlot.Parser

variable {α α' β β' : Type} {m : Nat → Nat} {F : FormulaError → FormulaError → Prop}
  {V : α → α' → Prop} {W : β → β' → Prop}

/-- Two parsers end in the same way: with corresponding values and alike, or both fail. -/
inductive EndsAlike (m : Nat → Nat) (F : FormulaError → FormulaError → Prop) (V : α → α' → Prop) :
    EStateM.Result FormulaError Parser α → EStateM.Result FormulaError Parser α' → Prop
  | ok {a : α} {a' : α'} {p q : Parser} (value : V a a') (h : p.Alike m F q) :
      EndsAlike m F V (.ok a p) (.ok a' q)
  | error {e e' : FormulaError} {p q : Parser} (h : FailsAlike m F e e') :
      EndsAlike m F V (.error e p) (.error e' q)

/-- Two actions do the same for parsers that are alike. -/
def ActsAlike (m : Nat → Nat) (F : FormulaError → FormulaError → Prop) (V : α → α' → Prop)
    (x : Parsing α) (y : Parsing α') : Prop :=
  ∀ p q : Parser, p.Alike m F q → EndsAlike m F V (x p) (y q)

/-- Two formulas are the same up to their positions. -/
def SameFormula (m : Nat → Nat) (f g : Formula) : Prop := f.mapPosition m = g.mapPosition m

namespace ActsAlike

lemma pure {a : α} {a' : α'} (h : V a a') : ActsAlike m F V (Pure.pure a) (Pure.pure a') :=
  fun _ _ hpq => .ok h hpq

lemma bind {x : Parsing α} {y : Parsing α'} {f : α → Parsing β} {g : α' → Parsing β'}
    (hxy : ActsAlike m F V x y) (hfg : ∀ a a', V a a' → ActsAlike m F W (f a) (g a')) :
    ActsAlike m F W (x >>= f) (y >>= g) := by
  intro p q hpq
  have hends := hxy p q hpq
  cases hx : x p with
  | ok a p' =>
    cases hy : y q with
    | ok a' q' =>
      rw [hx, hy] at hends
      rw [bind_ok hx, bind_ok hy]
      cases hends with
      | ok value h => exact hfg a a' value p' q' h
    | error e' q' =>
      rw [hx, hy] at hends
      cases hends
  | error e p' =>
    cases hy : y q with
    | ok a' q' =>
      rw [hx, hy] at hends
      cases hends
    | error e' q' =>
      rw [hx, hy] at hends
      rw [bind_error hx, bind_error hy]
      cases hends with
      | error h => exact .error h

lemma get : ActsAlike m F (Alike m F) (MonadState.get : Parsing Parser) MonadState.get :=
  fun _ _ hpq => .ok hpq hpq

lemma fail {expected : Text} (mem : expected ∈ expectations) (reason? : Option Text) :
    ActsAlike m F V (Parsing.fail expected reason?) (Parsing.fail expected reason?) :=
  fun _ _ hpq => .error (.mismatch hpq mem reason?)

lemma tooDeep : ActsAlike m F V Parsing.tooDeep Parsing.tooDeep :=
  fail (by simp [expectations]) _

/-- Counting the depth is no difference. -/
lemma countDepth (k : Nat → Nat) : ActsAlike m F (fun _ _ => True)
    (modify fun p : Parser => { p with depth := k p.depth } : Parsing PUnit)
    (modify fun p : Parser => { p with depth := k p.depth } : Parsing PUnit) :=
  fun _ _ hpq => .ok trivial ⟨hpq.current, hpq.behind, hpq.fault, congrArg k hpq.depth⟩

lemma nested {x : Parsing α} {y : Parsing α'} (hxy : ActsAlike m F V x y) :
    ActsAlike m F V (Parsing.nested x) (Parsing.nested y) :=
  bind (countDepth (· + 1)) fun _ _ _ => bind hxy fun _ _ hvalue =>
    bind (countDepth (· - 1)) fun _ _ _ => pure hvalue

lemma advance : ActsAlike m F (fun _ _ => True) Parsing.advance Parsing.advance := by
  intro p q hpq
  rcases hpq.current_cases with ⟨hp, hq⟩ | ⟨kind, text, i, j, hp, hq, -⟩
  · rw [Parsing.advance, hp, Parsing.advance, hq]
    exact .ok trivial hpq
  · obtain ⟨-, hbehind, hfault, hdepth⟩ := hpq
    rw [Parsing.advance, hp, Parsing.advance, hq]
    rcases hps : p.stream with ⟨ts, fault?⟩
    rcases hqs : q.stream with ⟨us, fault'?⟩
    rw [hps, hqs] at hbehind hfault
    cases ts with
    | nil =>
      obtain rfl : us = [] := List.map_eq_nil_iff.mp hbehind.symm
      cases hfault with
      | none => exact .ok trivial ⟨rfl, rfl, .none, hdepth⟩
      | some herror => exact .error (.fault herror)
    | cons t ts =>
      obtain ⟨u, us, rfl, htoken, hrest⟩ := List.map_eq_cons_iff.mp hbehind.symm
      exact .ok trivial ⟨congrArg some htoken.symm, hrest.symm, hfault, hdepth⟩

lemma accept (kind : TokenKind) :
    ActsAlike m F (· = ·) (Parsing.accept kind) (Parsing.accept kind) := by
  intro p q hpq
  rw [Parsing.accept, Parsing.accept, hpq.any_kind_eq]
  split
  · exact bind advance (fun _ _ _ => pure rfl) p q hpq
  · exact .ok rfl hpq

lemma expect (kind : TokenKind) {description : Text} (mem : description ∈ expectations) :
    ActsAlike m F (fun _ _ => True) (Parsing.expect kind description)
      (Parsing.expect kind description) := by
  refine bind (accept kind) fun found _ heq => ?_
  subst heq
  cases found with
  | true => exact pure trivial
  | false => exact fail mem none

/-- Two operators taken from the tokens: the same, or none. -/
def SameOperator (m : Nat → Nat) (a b : Option (Operator × Nat)) : Prop :=
  a.map (Prod.map id m) = b.map (Prod.map id m)

lemma acceptOperator (operators : List Operator) : ActsAlike m F (SameOperator m)
    (Parsing.acceptOperator operators) (Parsing.acceptOperator operators) := by
  intro p q hpq
  rcases hpq.current_cases with ⟨hp, hq⟩ | ⟨kind, text, i, j, hp, hq, hposition⟩
  · rw [Parsing.acceptOperator, hp, Parsing.acceptOperator, hq]
    exact .ok rfl hpq
  · rw [Parsing.acceptOperator, hp, Parsing.acceptOperator, hq]
    cases kind with
    | operator op =>
      dsimp only
      split
      · refine bind advance (fun _ _ _ => pure ?_) p q hpq
        simp [SameOperator, hposition]
      · exact .ok rfl hpq
    | number | identifier | leftParen | rightParen | comma => exact .ok rfl hpq

lemma build {f g : Formula} (h : SameFormula m f g) :
    ActsAlike m F (SameFormula m) (Parsing.build f) (Parsing.build g) := by
  rw [Parsing.build, Parsing.build, Formula.height_eq_of_mapPosition h]
  split
  · exact tooDeep
  · exact pure h

/-! ### Chains and arguments -/

variable {operand inner : Parsing Formula} {U : β → β → Prop}

/-- What is done with an operator, and what without one. -/
lemma bind_operator (operators : List Operator) {f g : Option (Operator × Nat) → Parsing β}
    (hnone : ActsAlike m F U (f none) (g none))
    (hsome : ∀ op i j, m i = m j → ActsAlike m F U (f (some (op, i))) (g (some (op, j)))) :
    ActsAlike m F U (Parsing.acceptOperator operators >>= f)
      (Parsing.acceptOperator operators >>= g) := by
  refine bind (acceptOperator operators) fun taken taken' htaken => ?_
  rcases taken with _ | ⟨op, i⟩ <;> rcases taken' with _ | ⟨op', j⟩
  · exact hnone
  · cases htaken
  · cases htaken
  · simp only [SameOperator, Option.map_some, Prod.map_apply, id, Option.some.injEq,
      Prod.mk.injEq] at htaken
    obtain ⟨rfl, hposition⟩ := htaken
    exact hsome op i j hposition

lemma binary (op : Operator) {left left' right right' : Formula} {i j : Nat}
    (hleft : SameFormula m left left') (hright : SameFormula m right right') (hij : m i = m j) :
    SameFormula m (.binary op left right i) (.binary op left' right' j) := by
  rw [SameFormula, Formula.mapPosition, hleft, hright, hij, Formula.mapPosition]

lemma chainFrom (operators : List Operator)
    (hoperand : ActsAlike m F (SameFormula m) operand operand) (n : Nat) {left left' : Formula}
    (hleft : SameFormula m left left') :
    ActsAlike m F (SameFormula m) (Parsing.chainFrom operators operand n left)
      (Parsing.chainFrom operators operand n left') := by
  induction n generalizing left left' with
  | zero => exact pure hleft
  | succ n ih =>
    refine bind_operator operators (pure hleft) fun op i j hij => ?_
    exact bind hoperand fun _ _ hright => bind (build (binary op hleft hright hij)) fun _ _ => ih

lemma chain (operators : List Operator)
    (hoperand : ActsAlike m F (SameFormula m) operand operand) :
    ActsAlike m F (SameFormula m) (Parsing.chain operators operand)
      (Parsing.chain operators operand) := by
  refine bind hoperand fun left left' hleft => bind get fun p q hpq => ?_
  rw [hpq.remaining_eq]
  exact chainFrom operators hoperand _ hleft

lemma expression (hinner : ActsAlike m F (SameFormula m) inner inner) :
    ActsAlike m F (SameFormula m) (Parsing.expression inner) (Parsing.expression inner) :=
  chain [.add, .sub] (chain [.mul, .div] hinner)

/-- Some formulas are the same up to their positions. -/
def SameFormulas (m : Nat → Nat) (fs gs : List Formula) : Prop :=
  fs.map (Formula.mapPosition m) = gs.map (Formula.mapPosition m)

lemma sameFormulas_cons {f g : Formula} {fs gs : List Formula} (h : SameFormula m f g)
    (hrest : SameFormulas m fs gs) : SameFormulas m (f :: fs) (g :: gs) := by
  rw [SameFormulas, List.map_cons, List.map_cons, h, hrest]

lemma argumentsFrom (hargument : ActsAlike m F (SameFormula m) operand operand) (n : Nat) :
    ActsAlike m F (SameFormulas m) (Parsing.argumentsFrom operand n)
      (Parsing.argumentsFrom operand n) := by
  induction n with
  | zero => exact pure rfl
  | succ n ih =>
    refine bind (accept .comma) fun found _ heq => ?_
    subst heq
    cases found with
    | true =>
      exact bind hargument fun _ _ ha => bind ih fun _ _ hrest => pure (sameFormulas_cons ha hrest)
    | false => exact pure rfl

lemma arguments (hargument : ActsAlike m F (SameFormula m) operand operand) :
    ActsAlike m F (SameFormulas m) (Parsing.arguments operand) (Parsing.arguments operand) := by
  refine bind hargument fun a b hab => bind get fun p q hpq => ?_
  rw [hpq.remaining_eq]
  exact bind (argumentsFrom hargument _) fun _ _ hrest => pure (sameFormulas_cons hab hrest)

/-! ### The levels of the grammar -/

lemma callBehind (hinner : ActsAlike m F (SameFormula m) inner inner) (name : Text) {i j : Nat}
    (hij : m i = m j) : ActsAlike m F (SameFormula m) (Parsing.callBehind inner name i)
      (Parsing.callBehind inner name j) := by
  have hclosed {fs gs : List Formula} (h : SameFormulas m fs gs) :
      ActsAlike m F (SameFormula m)
        (Parsing.expect .rightParen "')'" >>= fun _ => Parsing.build (.call name fs i))
        (Parsing.expect .rightParen "')'" >>= fun _ => Parsing.build (.call name gs j)) := by
    refine bind (expect .rightParen (by simp [expectations])) fun _ _ _ => build ?_
    rw [SameFormula, Formula.mapPosition, Formula.mapPosition, Formula.mapPositions_eq_map,
      Formula.mapPositions_eq_map, h, hij]
  intro p q hpq
  rw [callBehind_eq, callBehind_eq, hpq.any_kind_eq]
  split
  · exact hclosed rfl p q hpq
  · exact bind (arguments (expression hinner)) (fun _ _ => hclosed) p q hpq

lemma primary (hinner : ActsAlike m F (SameFormula m) inner inner) :
    ActsAlike m F (SameFormula m) (Parsing.primary inner) (Parsing.primary inner) := by
  intro p q hpq
  rcases hpq.current_cases with ⟨hp, hq⟩ | ⟨kind, text, i, j, hp, hq, hij⟩
  · rw [primary_eq_fail (by simp [hp]), primary_eq_fail (by simp [hq])]
    exact fail (by simp [expectations]) none p q hpq
  cases kind with
  | number value =>
    rw [primary_number ⟨_, rfl⟩ hp, primary_number ⟨_, rfl⟩ hq]
    split
    · refine bind advance (fun _ _ _ => pure ?_) p q hpq
      rw [SameFormula, Formula.mapPosition, hij, Formula.mapPosition]
    · exact fail (by simp [expectations]) _ p q hpq
  | identifier =>
    rw [primary_name ⟨_, rfl⟩ hp, primary_name ⟨_, rfl⟩ hq]
    refine bind advance (fun _ _ _ => bind (accept .leftParen) fun opened _ heq => ?_) p q hpq
    subst heq
    cases opened with
    | true => exact callBehind hinner text hij
    | false =>
      refine pure ?_
      rw [SameFormula, Formula.mapPosition, hij, Formula.mapPosition]
  | leftParen =>
    rw [primary_opening ⟨_, rfl⟩ hp, primary_opening ⟨_, rfl⟩ hq]
    exact bind advance (fun _ _ _ => bind (expression hinner) fun _ _ hf =>
      bind (expect .rightParen (by simp [expectations])) fun _ _ _ => pure hf) p q hpq
  | operator | rightParen | comma =>
    rw [primary_eq_fail (by simp [hp, TokenKind.StartsPrimary]),
      primary_eq_fail (by simp [hq, TokenKind.StartsPrimary])]
    exact fail (by simp [expectations]) none p q hpq

lemma power (hinner : ActsAlike m F (SameFormula m) inner inner) :
    ActsAlike m F (SameFormula m) (Parsing.power inner) (Parsing.power inner) := by
  refine bind (primary hinner) fun base base' hbase => ?_
  refine bind_operator [.pow] (pure hbase) fun op i j hij => ?_
  exact bind hinner fun _ _ hexponent => build (binary op hbase hexponent hij)

lemma unary (allowance : Nat) : ActsAlike m F (SameFormula m) (Parsing.unary allowance)
    (Parsing.unary allowance) := by
  induction allowance with
  | zero => exact tooDeep
  | succ allowance ih =>
    refine nested (bind_operator [.sub] (power ih) fun op i j hij => ?_)
    refine bind ih fun operand operand' hoperand => build ?_
    rw [SameFormula, Formula.mapPosition, hoperand, hij, Formula.mapPosition]

lemma formula : ActsAlike m F (SameFormula m) Parsing.formula Parsing.formula := by
  intro p q hpq
  rw [formula_eq, formula_eq, hpq.depth, hpq.isNone_eq]
  split
  · exact fail (by simp [expectations]) _ p q hpq
  · refine bind (expression (unary _)) (fun f g hfg => bind get fun p q hpq => ?_) p q hpq
    rw [hpq.isSome_eq]
    split
    · exact fail (by simp [expectations]) none
    · exact pure hfg

end ActsAlike

end Parsing

/-! ### The answers -/

namespace Formula

open FunctionPlot.Parser

/-- Two readings of a formula come to the same: to formulas that are the same up to their positions,
or to errors of parsers that fail in the same way. -/
inductive AnswersAlike (m : Nat → Nat) (F : FormulaError → FormulaError → Prop) :
    Except FormulaError Formula → Except FormulaError Formula → Prop
  | ok {f g : Formula} (h : f.mapPosition m = g.mapPosition m) : AnswersAlike m F (.ok f) (.ok g)
  | error {e e' : FormulaError} (h : FailsAlike m F e e') : AnswersAlike m F (.error e) (.error e')

variable {m : Nat → Nat} {F : FormulaError → FormulaError → Prop} {p q : Parser}

lemma answersAlike_parse (hpq : p.Alike m F q) : AnswersAlike m F p.parse.1 q.parse.1 := by
  have hends := Parsing.ActsAlike.formula p q hpq
  rw [parse, parse]
  generalize Parsing.formula p = result at hends
  generalize Parsing.formula q = result' at hends
  cases hends with
  | ok value h => exact .ok value
  | error h => exact .error h

/-- From the same tokens, up to their positions, the same is read. -/
theorem ofStream_alike {s s' : TokenStream}
    (htokens : s.tokens.map (Token.mapPosition m) = s'.tokens.map (Token.mapPosition m))
    (hfault : Option.Rel F s.fault? s'.fault?) (source source' : Text) :
    AnswersAlike m F (ofStream s source) (ofStream s' source') := by
  obtain ⟨ts, fault?⟩ := s
  obtain ⟨us, fault'?⟩ := s'
  cases ts with
  | nil =>
    obtain rfl : us = [] := List.map_eq_nil_iff.mp htokens.symm
    cases hfault with
    | none =>
      exact answersAlike_parse (p := ⟨none, none, .ended, 0, source⟩)
        (q := ⟨none, none, .ended, 0, source'⟩) ⟨rfl, rfl, .none, rfl⟩
    | some herror => exact .error (.fault herror)
  | cons t ts =>
    obtain ⟨u, us, rfl, htoken, hrest⟩ := List.map_eq_cons_iff.mp htokens.symm
    exact answersAlike_parse (p := ⟨some t, none, ⟨ts, fault?⟩, 0, source⟩)
      (q := ⟨some u, none, ⟨us, fault'?⟩, 0, source'⟩)
      ⟨congrArg some htoken.symm, hrest.symm, hfault, rfl⟩

end Formula

end FunctionPlot
