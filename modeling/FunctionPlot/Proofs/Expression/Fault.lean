/-
# Where an evaluation fails

The nodes of a formula are evaluated in post-order: from left to right, and each one after its
parts.  A formula has a value only if all its nodes have one (`Formula.HasValue.node`).  If it has
none, its fault is that of the first node that fails although all its parts have values
(`Formula.exists_first_fault`).

Over the standard table few nodes can be outside of their domains, and the text shows at the
position of such a node what it is (`Formula.Culprit`): an operator, a name with an opening
parenthesis behind it, or the variable.
-/
import FunctionPlot.Proofs.Expression.ErrorPlace
import FunctionPlot.Proofs.Expression.Finite
import FunctionPlot.Proofs.Expression.Sampled
import FunctionPlot.Proofs.Formula.InOrder

namespace FunctionPlot

namespace Formula

mutual

/-- The nodes of a formula in post-order. -/
def postOrder : Formula → List Formula
  | constant value position => [constant value position]
  | symbol name position => [symbol name position]
  | negation operand position => operand.postOrder ++ [negation operand position]
  | binary op left right position =>
    left.postOrder ++ right.postOrder ++ [binary op left right position]
  | call function arguments position => allPostOrder arguments ++ [call function arguments position]

/-- The nodes of some formulas, one formula after the other. -/
def allPostOrder : List Formula → List Formula
  | [] => []
  | f :: rest => f.postOrder ++ allPostOrder rest

end

/-- A formula has a value. -/
def HasValue (table : SymbolTable) (bindings : Bindings) (f : Formula) : Prop :=
  ∃ x, f.value table bindings = .ok x

/-- A name stands in a text at a position, and what is behind it shows its role. -/
def NamedAt (source : Text) (role : Role) (name : Text) (position : Nat) : Prop :=
  IsNamed (TokenStream.ofText source).tokens role name position ∧ name <+: source.drop position

/-- A node of a formula can be outside of its domain in some way, and the text shows at its position
what it is. -/
inductive Culprit (source : Text) : DomainFault → Formula → Prop
  /-- A quotient. -/
  | quotient {left right : Formula} {position : Nat}
      (sign : source[position]? = some Operator.div.sign) :
      Culprit source .divisionByZero (binary .div left right position)
  /-- A power. -/
  | power {left right : Formula} {position : Nat}
      (sign : source[position]? = some Operator.pow.sign) :
      Culprit source .invalidPower (binary .pow left right position)
  /-- A call of the logarithm. -/
  | logarithm {arguments : List Formula} {position : Nat}
      (name : NamedAt source .function "ln" position) :
      Culprit source .logarithm (call "ln" arguments position)
  /-- A call of the square root. -/
  | squareRoot {arguments : List Formula} {position : Nat}
      (name : NamedAt source .function "sqrt" position) :
      Culprit source .squareRoot (call "sqrt" arguments position)
  /-- The result of an operator is not finite. -/
  | result {op : Operator} {left right : Formula} {position : Nat}
      (sign : source[position]? = some op.sign) :
      Culprit source .notFinite (binary op left right position)
  /-- The result of a function is not finite. -/
  | image {function : Text} {arguments : List Formula} {position : Nat}
      (name : NamedAt source .function function position) :
      Culprit source .notFinite (call function arguments position)
  /-- The number of the variable is not finite. -/
  | number {position : Nat} (name : NamedAt source .quantity "x" position) :
      Culprit source .notFinite (symbol "x" position)

variable {table : SymbolTable} {bindings : Bindings} {source name : Text} {f g a : Formula}
  {formulas : List Formula} {xs : List Float} {fault : ValueFault} {kind : DomainFault}
  {position place : Nat}

/-! ### Post-order -/

/-- What holds of a formula as soon as it holds of its parts holds of all formulas. -/
theorem parts_induction {motive : Formula → Prop}
    (h : ∀ f, (∀ a ∈ f.parts, motive a) → motive f) (f : Formula) : motive f := by
  induction f with
  | constant value position => exact h _ (by simp [parts])
  | symbol name position => exact h _ (by simp [parts])
  | negation operand position ih => exact h _ (by simpa [parts] using ih)
  | binary op left right position ihleft ihright => exact h _ (by simp [parts, ihleft, ihright])
  | call function arguments position ih => exact h _ ih

lemma allPostOrder_eq_flatMap (formulas : List Formula) :
    allPostOrder formulas = formulas.flatMap postOrder := by
  induction formulas with
  | nil => rfl
  | cons f rest ih => rw [allPostOrder, ih, List.flatMap_cons]

/-- The parts come from left to right, and the root behind them. -/
lemma postOrder_eq (f : Formula) : f.postOrder = f.parts.flatMap postOrder ++ [f] := by
  cases f with
  | constant | symbol => rfl
  | negation operand position => simp [postOrder, parts]
  | binary op left right position => simp [postOrder, parts]
  | call function arguments position => rw [postOrder, allPostOrder_eq_flatMap, parts]

/-- Both orders have the same nodes. -/
theorem postOrder_perm_inOrder (f : Formula) : f.postOrder.Perm f.inOrder := by
  induction f with
  | constant | symbol => exact .refl _
  | negation operand position ih =>
    -- the root is the only node whose place is another one
    rw [postOrder, inOrder]
    exact (List.perm_append_singleton _ _).trans (ih.cons _)
  | binary op left right position ihleft ihright =>
    rw [postOrder, inOrder, List.append_assoc]
    exact ihleft.append ((List.perm_append_singleton _ _).trans (ihright.cons _))
  | call function arguments position ih =>
    rw [postOrder, inOrder, allPostOrder_eq_flatMap, allInOrder_eq_flatMap]
    refine (List.perm_append_singleton _ _).trans (.cons _ ?_)
    exact List.Perm.flatMap_left _ ih

/-- What holds of a formula and with a formula of its parts holds of all its nodes. -/
lemma holds_of_mem_postOrder {p : Formula → Prop} (hparts : ∀ f, p f → ∀ a ∈ f.parts, p a)
    (hf : p f) (hg : g ∈ f.postOrder) : p g := by
  induction f using parts_induction with
  | h f ih =>
    rw [postOrder_eq, List.mem_append, List.mem_flatMap] at hg
    rcases hg with ⟨a, ha, hg⟩ | hg
    · exact ih a ha (hparts f hf a ha) hg
    · obtain rfl := List.mem_singleton.mp hg
      exact hf

/-! ### The first node that fails -/

lemma exists_values_iff :
    (∃ xs, values table bindings formulas = .ok xs) ↔
      ∀ f ∈ formulas, f.HasValue table bindings := by
  induction formulas with
  | nil => simp [values]
  | cons f rest ih =>
    rw [List.forall_mem_cons, ← ih, values]
    constructor
    · rintro ⟨ys, hys⟩
      obtain ⟨x, hx, hys⟩ := bind_eq_ok.mp hys
      obtain ⟨xs, hxs, -⟩ := bind_eq_ok.mp hys
      exact ⟨⟨x, hx⟩, xs, hxs⟩
    · rintro ⟨⟨x, hx⟩, xs, hxs⟩
      exact ⟨x :: xs, bind_eq_ok.mpr ⟨x, hx, bind_eq_ok.mpr ⟨xs, hxs, rfl⟩⟩⟩

/-- A formula with a value has parts with values. -/
lemma HasValue.part (h : f.HasValue table bindings) :
    ∀ a ∈ f.parts, a.HasValue table bindings := by
  obtain ⟨y, hy⟩ := h
  cases f with
  | constant | symbol => simp [parts]
  | negation operand position =>
    rw [value] at hy
    obtain ⟨x, hx, -⟩ := bind_eq_ok.mp hy
    exact List.forall_mem_singleton.mpr ⟨x, hx⟩
  | binary op left right position =>
    rw [value] at hy
    obtain ⟨x, hx, hy⟩ := bind_eq_ok.mp hy
    obtain ⟨y, hy, -⟩ := bind_eq_ok.mp hy
    exact List.forall_mem_cons.mpr ⟨⟨x, hx⟩, List.forall_mem_singleton.mpr ⟨y, hy⟩⟩
  | call function arguments position =>
    rw [value] at hy
    obtain ⟨xs, hxs, -⟩ := bind_eq_ok.mp hy
    exact exists_values_iff.mp ⟨xs, hxs⟩

/-- All nodes of a formula with a value have values. -/
theorem HasValue.node (h : f.HasValue table bindings) :
    ∀ g ∈ f.postOrder, g.HasValue table bindings :=
  fun _ hg => holds_of_mem_postOrder (fun _ => HasValue.part) h hg

/-- A fault of a formula is one of its parts unless they all have values. -/
lemma values_parts_of_value (h : f.value table bindings = .error fault) :
    values table bindings f.parts = .error fault ∨ ∀ a ∈ f.parts, a.HasValue table bindings := by
  cases f with
  | constant | symbol => exact .inr (by simp [parts])
  | negation operand position =>
    rw [value] at h
    rcases bind_eq_error.mp h with hoperand | ⟨x, hx, -⟩
    · exact .inl (bind_eq_error.mpr (.inl hoperand))
    · exact .inr (List.forall_mem_singleton.mpr ⟨x, hx⟩)
  | binary op left right position =>
    rw [value] at h
    rcases bind_eq_error.mp h with hleft | ⟨x, hx, h⟩
    · exact .inl (bind_eq_error.mpr (.inl hleft))
    rcases bind_eq_error.mp h with hright | ⟨y, hy, -⟩
    · have hvalues : values table bindings [right] = .error fault :=
        bind_eq_error.mpr (.inl hright)
      exact .inl (bind_eq_error.mpr (.inr ⟨x, hx, bind_eq_error.mpr (.inl hvalues)⟩))
    · exact .inr (List.forall_mem_cons.mpr ⟨⟨x, hx⟩, List.forall_mem_singleton.mpr ⟨y, hy⟩⟩)
  | call function arguments position =>
    rw [value] at h
    rcases bind_eq_error.mp h with hvalues | ⟨xs, hxs, -⟩
    · exact .inl hvalues
    · exact .inr (exists_values_iff.mp ⟨xs, hxs⟩)

/-- The fault of a formula is that of the first node in post-order that has no value. -/
theorem exists_first_fault (h : f.value table bindings = .error fault) :
    ∃ before g after, f.postOrder = before ++ g :: after ∧
      g.value table bindings = .error fault ∧ (∀ a ∈ g.parts, a.HasValue table bindings) ∧
      ∀ b ∈ before, b.HasValue table bindings := by
  induction f using parts_induction with
  | h f ih =>
    rcases values_parts_of_value h with hparts | hparts
    · -- the first part without a value has the node, and all nodes of the parts before have values
      obtain ⟨before, a, after, ys, hsplit, hbefore, ha⟩ := exists_of_values_eq_error hparts
      have hmem : a ∈ f.parts := hsplit ▸ List.mem_append_right _ List.mem_cons_self
      obtain ⟨front, g, back, hnodes, hg, hgparts, hfront⟩ := ih a hmem ha
      refine ⟨before.flatMap postOrder ++ front, g, back ++ after.flatMap postOrder ++ [f], ?_, hg,
        hgparts, List.forall_mem_append.mpr ⟨?_, hfront⟩⟩
      · rw [postOrder_eq, hsplit, List.flatMap_append, List.flatMap_cons, hnodes]
        simp
      · intro b hb
        obtain ⟨a', ha', hb⟩ := List.mem_flatMap.mp hb
        exact HasValue.node (exists_values_iff.mp ⟨ys, hbefore⟩ a' ha') b hb
    · refine ⟨f.parts.flatMap postOrder, f, [], postOrder_eq f, h, hparts, fun b hb => ?_⟩
      obtain ⟨a, ha, hb⟩ := List.mem_flatMap.mp hb
      exact HasValue.node (hparts a ha) b hb

/-! ### Faults over the standard table -/

lemma finite_eq_error {x : Float} (h : finite x position = .error fault) :
    fault = .domain .notFinite position := by
  rw [finite] at h
  split at h
  · cases h
  · cases h
    rfl

/-- How an operator can be outside of its domain. -/
lemma apply_eq_error {op : Operator} {x y : Float} (h : op.apply x y position = .error fault) :
    fault = .domain .notFinite position ∨ op = .div ∧ fault = .domain .divisionByZero position ∨
      op = .pow ∧ fault = .domain .invalidPower position := by
  cases op with
  | add | sub | mul => exact .inl (finite_eq_error h)
  | div =>
    rw [Operator.apply] at h
    split at h
    · cases h
      exact .inr (.inl ⟨rfl, rfl⟩)
    · exact .inl (finite_eq_error h)
  | pow =>
    rw [Operator.apply] at h
    split at h
    · cases h
      exact .inr (.inr ⟨rfl, rfl⟩)
    · exact .inl (finite_eq_error h)

/-- Of the standard variables only one is independent. -/
lemma eq_of_isIndependent_standard (h : SymbolTable.standard.IsIndependent name) : name = "x" := by
  have hmem := SymbolTable.mem_independentVariables h
  have hnames : SymbolTable.standard.independentVariables = ["x"] := rfl
  rw [hnames] at hmem
  exact List.mem_singleton.mp hmem

lemma variableValue_standard_eq_domain
    (h : SymbolTable.standard.variableValue bindings name position = .error (.domain kind place)) :
    position = place ∧ kind = .notFinite ∧ name = "x" := by
  rw [SymbolTable.variableValue] at h
  split at h
  · cases h
  · cases h
  · rename_i description hmeaning
    split at h
    · cases h
    · cases finite_eq_error h
      exact ⟨rfl, rfl, eq_of_isIndependent_standard ⟨description, hmeaning⟩⟩

/-- Of the standard functions only two have faults of their own. -/
lemma rule_standard_eq_domain {function : FunctionSymbol}
    (h : SymbolTable.standard.functionSymbol? name = some function)
    (hrule : function.rule xs = .error (.domain kind)) :
    name = "ln" ∧ kind = .logarithm ∨ name = "sqrt" ∧ kind = .squareRoot := by
  have hmem : (name, function) ∈ SymbolTable.standardFunctions := Entries.mem_of_get?_eq_some h
  simp only [SymbolTable.standardFunctions, List.mem_cons, List.not_mem_nil, or_false,
    Prod.mk.injEq] at hmem
  rcases hmem with ⟨rfl, rfl⟩ | ⟨rfl, rfl⟩ | ⟨rfl, rfl⟩ | ⟨rfl, rfl⟩ | ⟨rfl, rfl⟩ | ⟨rfl, rfl⟩ |
    ⟨rfl, rfl⟩ | ⟨rfl, rfl⟩ | ⟨rfl, rfl⟩
  -- all rules but those of the logarithm and of the square root give numbers
  · cases hrule
  · cases hrule
  · cases hrule
  · cases hrule
  · change Rule.logarithm xs = _ at hrule
    rw [Rule.logarithm] at hrule
    split at hrule
    · cases hrule
      exact .inl ⟨rfl, rfl⟩
    · cases hrule
  · change Rule.squareRoot xs = _ at hrule
    rw [Rule.squareRoot] at hrule
    split at hrule
    · cases hrule
      exact .inr ⟨rfl, rfl⟩
    · cases hrule
  · cases hrule
  · cases hrule
  · cases hrule

lemma callValue_standard_eq_domain
    (h : SymbolTable.standard.callValue name xs position = .error (.domain kind place)) :
    position = place ∧ (kind = .notFinite ∨ name = "ln" ∧ kind = .logarithm ∨
      name = "sqrt" ∧ kind = .squareRoot) := by
  rw [SymbolTable.callValue] at h
  split at h
  · cases h
  · rename_i function hfunction
    split at h
    · cases finite_eq_error h
      exact ⟨rfl, .inl rfl⟩
    · rename_i fault hrule
      cases h
      exact ⟨rfl, .inr (rule_standard_eq_domain hfunction hrule)⟩
    · cases h

/-! ### What the text shows -/

lemma Anchored.part {named : Role → Text → Nat → Prop} (h : f.Anchored named) :
    ∀ a ∈ f.parts, a.Anchored named := by
  cases f with
  | constant | symbol => simp [parts]
  | negation operand position => exact List.forall_mem_singleton.mpr h
  | binary op left right position =>
    exact List.forall_mem_cons.mpr ⟨h.1, List.forall_mem_singleton.mpr h.2⟩
  | call function arguments position => exact (allAnchored_iff arguments).mp h.2

lemma namedAt_of_isNamed {role : Role}
    (h : IsNamed (TokenStream.ofText source).tokens role name position) :
    NamedAt source role name position :=
  ⟨h, (Expression.front_of_isNamed h).1⟩

/-- An operator stands at the position of its node. -/
lemma getElem?_of_binary_mem {op : Operator} {left right : Formula} (h : ofText source = .ok f)
    (hg : binary op left right position ∈ f.postOrder) : source[position]? = some op.sign := by
  obtain ⟨rest, hrest⟩ := front_of_mem_inOrder h ((postOrder_perm_inOrder f).subset hg) rfl
  change [op.sign] ++ rest = source.drop position at hrest
  have hget := congrArg (·[0]?) hrest
  simpa using hget.symm

/-- A node that is outside of its domain though its parts have values can be so, and the text shows
what it is. -/
lemma culprit_of_value (h : ofText source = .ok f) (hg : g ∈ f.postOrder)
    (hparts : ∀ a ∈ g.parts, a.HasValue .standard bindings)
    (hvalue : g.value .standard bindings = .error (.domain kind place)) :
    g.position = place ∧ Culprit source kind g := by
  have hanchored := holds_of_mem_postOrder (fun _ => Anchored.part) (anchored_of_ofText h) hg
  cases g with
  | constant value position => cases hvalue
  | symbol name position =>
    obtain ⟨hplace, rfl, rfl⟩ := variableValue_standard_eq_domain hvalue
    exact ⟨hplace, .number (namedAt_of_isNamed hanchored)⟩
  | negation operand position =>
    -- a change of the sign never fails
    obtain ⟨x, hx⟩ := hparts operand List.mem_cons_self
    rw [value, hx] at hvalue
    cases hvalue
  | binary op left right position =>
    have hsign := getElem?_of_binary_mem h hg
    obtain ⟨x, hx⟩ := hparts left List.mem_cons_self
    obtain ⟨y, hy⟩ := hparts right (List.mem_cons_of_mem _ List.mem_cons_self)
    rw [value, hx, hy] at hvalue
    rcases apply_eq_error hvalue with heq | ⟨rfl, heq⟩ | ⟨rfl, heq⟩
    · cases heq
      exact ⟨rfl, .result hsign⟩
    · cases heq
      exact ⟨rfl, .quotient hsign⟩
    · cases heq
      exact ⟨rfl, .power hsign⟩
  | call function arguments position =>
    have hnamed := namedAt_of_isNamed hanchored.1
    obtain ⟨xs, hxs⟩ := exists_values_iff.mpr hparts
    rw [value] at hvalue
    change values .standard bindings arguments = .ok xs at hxs
    rw [hxs] at hvalue
    obtain ⟨hplace, rfl | ⟨rfl, rfl⟩ | ⟨rfl, rfl⟩⟩ := callValue_standard_eq_domain hvalue
    · exact ⟨hplace, .image hnamed⟩
    · exact ⟨hplace, .logarithm hnamed⟩
    · exact ⟨hplace, .squareRoot hnamed⟩

/-- No two nodes of a formula stand at the same position of its text. -/
lemma eq_of_position_eq (h : ofText source = .ok f) (hg : g ∈ f.postOrder) (ha : a ∈ f.postOrder)
    (hposition : g.position = a.position) : g = a := by
  have hnodup : (f.inOrder.map position).Nodup := by
    refine List.pairwise_map.mpr ((pairwise_inOrder h).imp ?_)
    exact fun hlt => hlt.ne
  have hnodes := (postOrder_perm_inOrder f).subset
  exact List.inj_on_of_nodup_map hnodup (hnodes hg) (hnodes ha) hposition

end Formula

namespace Expression

variable {source : Text} {e : Expression}

/-- If an expression over the standard table is outside of its domain, then so is the first node in
post-order that has no value, which is the only node at the position of the fault.  Its parts have
values, and the text shows there what it is.  If any node fails although its parts have values, so
does the expression, and only by its domain if the variable has a number. -/
theorem value_domain_first (hcompile : compile source .standard = .ok e) (bindings : Bindings) :
    (∀ kind position, e.value bindings = .error (.domain kind position) → ∃ before m after,
      e.root.postOrder = before ++ m :: after ∧
      m.position = position ∧ (∀ g ∈ e.root.postOrder, g.position = position → g = m) ∧
      m.value .standard bindings = .error (.domain kind position) ∧
      (∀ a ∈ m.parts, a.HasValue .standard bindings) ∧
      (∀ g ∈ before, g.HasValue .standard bindings) ∧ Formula.Culprit source kind m) ∧
    ∀ m ∈ e.root.postOrder, (∀ a ∈ m.parts, a.HasValue .standard bindings) →
      ¬ m.HasValue .standard bindings → ∃ fault, e.value bindings = .error fault ∧
        ((bindings "x").isSome → ∃ kind position, fault = .domain kind position) := by
  obtain ⟨f, seen, hread, hcheck, rfl⟩ := compile_eq_ok_iff.mp hcompile
  constructor
  · intro kind position hfault
    obtain ⟨before, m, after, hsplit, hm, hparts, hbefore⟩ := Formula.exists_first_fault hfault
    have hmem : m ∈ f.postOrder := hsplit ▸ List.mem_append_right _ List.mem_cons_self
    obtain ⟨hposition, hculprit⟩ := Formula.culprit_of_value hread hmem hparts hm
    refine ⟨before, m, after, hsplit, hposition, fun g hg hplace => ?_, hm, hparts, hbefore,
      hculprit⟩
    exact Formula.eq_of_position_eq hread hg hmem (hplace.trans hposition.symm)
  · intro m hm _ hnone
    cases hvalue : Expression.value ⟨source, f, .standard, seen⟩ bindings with
    | ok y => exact absurd (Formula.HasValue.node ⟨y, hvalue⟩ m hm) hnone
    | error fault =>
      refine ⟨fault, rfl, fun hx => ?_⟩
      refine domain_of_bound hcompile SymbolTable.unbroken_standard (fun other hother => ?_) hvalue
      have hname := freeVariables_subset hcompile hother
      obtain rfl := List.mem_singleton.mp hname
      exact hx

/-- At zero neither the quotient nor the logarithm has a value, and the quotient is reported. -/
theorem value_domain_first_quotient : ∃ e, compile "pi/x + ln(x)" .standard = .ok e ∧
    e.value (.single "x" 0) = .error (.domain .divisionByZero 2) ∧
    (∃ before after,
      e.root.postOrder = before ++ .binary .div (.symbol "pi" 0) (.symbol "x" 3) 2 :: after ∧
      ∀ g ∈ before, g.HasValue .standard (.single "x" 0)) ∧
    Formula.Culprit "pi/x + ln(x)" .divisionByZero
      (.binary .div (.symbol "pi" 0) (.symbol "x" 3) 2) ∧
    ¬ Formula.HasValue .standard (.single "x" 0) (.call "ln" [.symbol "x" 10] 7) := by
  have hparse : Formula.ofText "pi/x + ln(x)" = .ok (.binary .add
      (.binary .div (.symbol "pi" 0) (.symbol "x" 3) 2) (.call "ln" [.symbol "x" 10] 7) 5) := by
    cbv
  have hcheck : Formula.checkFrom .standard "pi/x + ln(x)" (.binary .add
      (.binary .div (.symbol "pi" 0) (.symbol "x" 3) 2) (.call "ln" [.symbol "x" 10] 7) 5) []
        = .ok ["x"] := rfl
  have hcompile := compile_eq_ok_iff.mpr ⟨_, _, hparse, hcheck, rfl⟩
  have hvalue : Formula.value .standard (.single "x" 0) (.binary .add
      (.binary .div (.symbol "pi" 0) (.symbol "x" 3) 2) (.call "ln" [.symbol "x" 10] 7) 5)
        = .error (.domain .divisionByZero 2) := by decide +kernel
  have hlogarithm : Formula.value .standard (.single "x" 0) (.call "ln" [.symbol "x" 10] 7)
      = .error (.domain .logarithm 7) := by decide +kernel
  obtain ⟨hfirst, -⟩ := value_domain_first hcompile (.single "x" 0)
  obtain ⟨before, m, after, hsplit, -, honly, -, -, hbefore, hculprit⟩ := hfirst _ _ hvalue
  obtain rfl := honly (.binary .div (.symbol "pi" 0) (.symbol "x" 3) 2)
    (.tail _ (.tail _ (.head _))) rfl
  refine ⟨_, hcompile, hvalue, ⟨before, after, hsplit, hbefore⟩, hculprit, ?_⟩
  rintro ⟨y, hy⟩
  rw [hlogarithm] at hy
  cases hy

end Expression

end FunctionPlot
