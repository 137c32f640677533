/-
# Numbers that are not finite

Every operation looks at its result, and what a name is bound to is looked at too.  A constant of a
table is taken as it is, and a change of the sign keeps it as it is; so the numbers of an evaluation
that are not finite are those of unbounded constants, and there are no others
(`Expression.isFinite_iff_not_isUnbounded`).

`Formula.Reaches` says which parts of a formula an evaluation comes to: those with nothing in front
of them that has no value.  `Formula.Operates` says which numbers the operation at the root of such
a part is applied to, be it a change of the sign, an operator or a function.
-/
import FunctionPlot.Proofs.Expression.Recompile
import FunctionPlot.Proofs.Formula.Dependence

namespace FunctionPlot

namespace Formula

/-- The immediate parts of a formula, from left to right. -/
def parts : Formula → List Formula
  | constant _ _ => []
  | symbol _ _ => []
  | negation operand _ => [operand]
  | binary _ left right _ => [left, right]
  | call _ arguments _ => arguments

/-- The evaluation of a formula comes to a part of it.  At every level all that is in front of the
part has a value. -/
inductive Reaches (table : SymbolTable) (bindings : Bindings) : Formula → Formula → Prop
  /-- The evaluation starts with the whole formula. -/
  | root (f : Formula) : Reaches table bindings f f
  /-- It goes on with a part. -/
  | part {f part g : Formula} {before after : List Formula} {ys : List Float}
      (parts_eq : f.parts = before ++ part :: after)
      (before_eq : values table bindings before = .ok ys)
      (h : Reaches table bindings part g) : Reaches table bindings f g

/-- When a formula is evaluated, the operation at the root of one of its parts is applied to some
numbers. -/
structure Operates (table : SymbolTable) (bindings : Bindings) (f g : Formula) (xs : List Float) :
    Prop where
  reaches : Reaches table bindings f g
  values_eq : values table bindings g.parts = .ok xs

/-- The constants of a table that stand in a formula are finite. -/
def Bounded (table : SymbolTable) (f : Formula) : Prop :=
  ∀ name ∈ f.names .quantity, ∀ value description,
    table.variableSymbol? name = some (.constant value description) → value.isFinite

variable {table : SymbolTable} {bindings : Bindings} {name : Text} {f g a : Formula}
  {formulas : List Formula} {xs : List Float}

/-- What holds of the numbers of a formula holds of those of its parts. -/
lemma FiniteConstants.part (hf : f.FiniteConstants) (ha : a ∈ f.parts) :
    a.FiniteConstants := by
  cases f with
  | constant value position => simp [parts] at ha
  | symbol name position => simp [parts] at ha
  | negation operand position =>
    obtain rfl := List.mem_singleton.mp ha
    exact hf
  | binary op left right position =>
    simp only [parts, List.mem_cons, List.not_mem_nil, or_false] at ha
    rcases ha with rfl | rfl
    · exact hf.1
    · exact hf.2
  | call function arguments position => exact (allOver_iff arguments).mp hf.2 a ha

/-- The names in a part of a formula stand in the formula. -/
lemma names_part {role : Role} (ha : a ∈ f.parts) : a.names role ⊆ f.names role := by
  intro name hname
  cases f with
  | constant value position => simp [parts] at ha
  | symbol name position => simp [parts] at ha
  | negation operand position =>
    obtain rfl := List.mem_singleton.mp ha
    exact hname
  | binary op left right position =>
    simp only [parts, List.mem_cons, List.not_mem_nil, or_false] at ha
    rcases ha with rfl | rfl
    · exact List.mem_append_left _ hname
    · exact List.mem_append_right _ hname
  | call function arguments position =>
    exact List.mem_append_right _ (mem_allNames.mpr ⟨a, ha, hname⟩)

lemma Bounded.part (hf : f.Bounded table) (ha : a ∈ f.parts) : a.Bounded table :=
  fun name hname => hf name (names_part ha hname)

lemma Bounded.not_isUnbounded (hf : f.Bounded table) : ¬ f.IsUnbounded table := by
  induction f with
  | symbol name position =>
    rintro ⟨value, description, hmeaning, hunbounded⟩
    exact hunbounded (hf name List.mem_cons_self value description hmeaning)
  | negation operand position ih => exact ih hf
  | constant | binary | call => exact id

/-- What holds of a formula and with a formula of its parts holds of all that an evaluation comes
to. -/
lemma Reaches.holds {p : Formula → Prop} (hparts : ∀ f, p f → ∀ a ∈ f.parts, p a)
    (h : Reaches table bindings f g) (hf : p f) : p g := by
  induction h with
  | root f => exact hf
  | part parts_eq before_eq h ih =>
    exact ih (hparts _ hf _ (parts_eq ▸ List.mem_append_right _ List.mem_cons_self))

lemma forall₂_of_values {R : Formula → Float → Prop}
    (h : ∀ f ∈ formulas, ∀ x, f.value table bindings = .ok x → R f x)
    (hvalues : values table bindings formulas = .ok xs) : List.Forall₂ R formulas xs := by
  induction formulas generalizing xs with
  | nil =>
    cases hvalues
    exact .nil
  | cons f rest ih =>
    obtain ⟨hf, hrest⟩ := List.forall_mem_cons.mp h
    rw [values] at hvalues
    obtain ⟨x, hx, hvalues⟩ := bind_eq_ok.mp hvalues
    obtain ⟨ys, hys, hvalues⟩ := bind_eq_ok.mp hvalues
    cases hvalues
    exact .cons (hf x hx) (ih hrest hys)

/-- An operation is applied to finite numbers, but for unbounded constants. -/
lemma Operates.isFinite_iff (hf : f.FiniteConstants) (h : Operates table bindings f g xs) :
    List.Forall₂ (fun a x => x.isFinite ↔ ¬ a.IsUnbounded table) g.parts xs := by
  have hg : g.FiniteConstants := h.reaches.holds (fun _ hf _ ha => hf.part ha) hf
  refine forall₂_of_values ?_ h.values_eq
  intro a ha x hx
  exact isFinite_iff_of_value (hg.part ha) hx

/-- Over bounded constants an operation is applied to finite numbers only. -/
lemma Operates.isFinite (hf : f.FiniteConstants) (hbounded : f.Bounded table)
    (h : Operates table bindings f g xs) : ∀ x ∈ xs, x.isFinite := by
  have hg : g.Bounded table := h.reaches.holds (fun _ hf _ ha => hf.part ha) hbounded
  have hiff := h.isFinite_iff hf
  intro x hx
  obtain ⟨i, hi, rfl⟩ := List.mem_iff_getElem.mp hx
  have hi' : i < g.parts.length := hiff.length_eq ▸ hi
  exact (hiff.get hi' hi).mpr (hg.part (List.getElem_mem hi')).not_isUnbounded

/-- An evaluation comes to the first part of a formula at once. -/
lemma Reaches.first {rest : List Formula} (hparts : f.parts = a :: rest)
    (h : Reaches table bindings a g) : Reaches table bindings f g := by
  have hbefore : values table bindings [] = .ok [] := rfl
  exact .part hparts hbefore h

/-- The functions are among the operations. -/
lemma Applies.operates (h : Applies table bindings f name xs) :
    ∃ arguments position, Operates table bindings f (.call name arguments position) xs := by
  induction h with
  | call hvalues => exact ⟨_, _, .root _, hvalues⟩
  | argument hbefore h ih =>
    obtain ⟨arguments, position, hreaches, hvalues⟩ := ih
    exact ⟨arguments, position, .part rfl hbefore hreaches, hvalues⟩
  | operand h ih =>
    obtain ⟨arguments, position, hreaches, hvalues⟩ := ih
    exact ⟨arguments, position, hreaches.first rfl, hvalues⟩
  | left h ih =>
    obtain ⟨arguments, position, hreaches, hvalues⟩ := ih
    exact ⟨arguments, position, hreaches.first rfl, hvalues⟩
  | @right name op left right position xs x hleft h ih =>
    obtain ⟨arguments, position, hreaches, hvalues⟩ := ih
    have hbefore : values table bindings [left] = .ok [x] := by
      rw [values, hleft]
      rfl
    have hparts : (Formula.binary op left right position).parts = [left] ++ right :: [] := rfl
    exact ⟨arguments, position, .part hparts hbefore hreaches, hvalues⟩

end Formula

namespace Expression

open Formula

variable {source : Text} {table : SymbolTable} {e : Expression}

/-- The numbers in the text of an expression are finite. -/
lemma finiteConstants_root (hcompile : compile source table = .ok e) : e.root.FiniteConstants := by
  obtain ⟨f, seen, hf, -, rfl⟩ := compile_eq_ok_iff.mp hcompile
  exact (readable_of_ofText hf).1.imp (fun _ hvalue => hvalue.1) fun _ _ => trivial

/-- The numbers in the evaluation of an expression are finite, but for unbounded constants.  A value
is finite iff the expression is no such constant, and so are all the numbers that operations are
applied to.  If the constants in the expression are finite, the evaluation gives a finite number or
none, and operators and functions are applied to finite numbers only. -/
theorem isFinite_iff_not_isUnbounded (hcompile : compile source table = .ok e)
    (bindings : Bindings) :
    (∀ y, e.value bindings = .ok y → (y.isFinite ↔ ¬ e.root.IsUnbounded table)) ∧
    (∀ g xs, Operates table bindings e.root g xs →
      List.Forall₂ (fun a x => x.isFinite ↔ ¬ a.IsUnbounded table) g.parts xs) ∧
    (e.root.Bounded table →
      (∀ y, e.value bindings = .ok y → y.isFinite) ∧
      (∀ g xs, Operates table bindings e.root g xs → ∀ x ∈ xs, x.isFinite) ∧
      ∀ name xs, Applies table bindings e.root name xs → ∀ x ∈ xs, x.isFinite) := by
  have hnumbers := finiteConstants_root hcompile
  have hvalue : ∀ y, e.value bindings = .ok y → (y.isFinite ↔ ¬ e.root.IsUnbounded table) := by
    obtain ⟨f, seen, -, -, rfl⟩ := compile_eq_ok_iff.mp hcompile
    intro y hy
    exact isFinite_iff_of_value hnumbers hy
  refine ⟨hvalue, fun g xs h => h.isFinite_iff hnumbers, fun hbounded => ⟨?_, ?_, ?_⟩⟩
  · intro y hy
    exact (hvalue y hy).mpr hbounded.not_isUnbounded
  · intro g xs h
    exact h.isFinite hnumbers hbounded
  · intro name xs h
    obtain ⟨arguments, position, hoperates⟩ := h.operates
    exact hoperates.isFinite hnumbers hbounded

/-- A table with an infinite constant and a function of one argument that is always one. -/
def infiniteTable : SymbolTable :=
  .ofLists [("one", ⟨1, "One", .always 1⟩)] [("c", .constant Number.infinity "Infinity")]

lemma compile_call_infinite : compile "one(-c)" infiniteTable
    = .ok ⟨"one(-c)", .call "one" [.negation (.symbol "c" 5) 4] 0, infiniteTable, []⟩ := by
  have hparse : Formula.ofText "one(-c)" = .ok (.call "one" [.negation (.symbol "c" 5) 4] 0) := by
    cbv
  have hcheck : Formula.checkFrom infiniteTable "one(-c)"
      (.call "one" [.negation (.symbol "c" 5) 4] 0) [] = .ok [] := rfl
  exact compile_eq_ok_iff.mpr ⟨_, _, hparse, hcheck, rfl⟩

/-- The expression of a quotient over the standard table. -/
lemma compile_reciprocal : compile "pi/x" .standard
    = .ok ⟨"pi/x", .binary .div (.symbol "pi" 0) (.symbol "x" 3) 2, .standard, ["x"]⟩ := by
  have hparse : Formula.ofText "pi/x"
      = .ok (.binary .div (.symbol "pi" 0) (.symbol "x" 3) 2) := by cbv
  have hcheck : Formula.checkFrom .standard "pi/x"
      (.binary .div (.symbol "pi" 0) (.symbol "x" 3) 2) [] = .ok ["x"] := rfl
  exact compile_eq_ok_iff.mpr ⟨_, _, hparse, hcheck, rfl⟩

/-- A function is applied to an infinite number, but its own value is finite; over the standard
table no operation of a quotient is applied to an infinite number. -/
theorem isFinite_iff_not_isUnbounded_call :
    (∃ e, compile "one(-c)" infiniteTable = .ok e ∧ ∀ bindings,
      (∀ y, e.value bindings = .ok y → y.isFinite) ∧
      ∀ xs, Operates infiniteTable bindings e.root e.root xs → ∀ x ∈ xs, ¬ x.isFinite) ∧
    ∃ e, compile "pi/x" .standard = .ok e ∧ ∀ bindings g xs,
      Operates .standard bindings e.root g xs → ∀ x ∈ xs, x.isFinite := by
  constructor
  · refine ⟨_, compile_call_infinite, fun bindings => ?_⟩
    obtain ⟨hvalue, hoperates, -⟩ := isFinite_iff_not_isUnbounded compile_call_infinite bindings
    have hunbounded : (Formula.negation (.symbol "c" 5) 4).IsUnbounded infiniteTable :=
      ⟨Number.infinity, "Infinity", rfl, by decide +kernel⟩
    constructor
    · intro y hy
      exact (hvalue y hy).mpr id
    · intro xs h x hx
      cases hoperates _ xs h with
      | cons hfirst hrest =>
        cases hrest
        obtain rfl := List.mem_singleton.mp hx
        exact fun hfinite => hfirst.mp hfinite hunbounded
  · refine ⟨_, compile_reciprocal, fun bindings => ?_⟩
    obtain ⟨-, -, hbounded⟩ := isFinite_iff_not_isUnbounded compile_reciprocal bindings
    exact (hbounded fun name _ => SymbolTable.finiteConstants_standard name).2.1

/-- An infinite constant is a value, and a function is applied to it behind a minus sign. -/
theorem value_infinite :
    (∃ e, compile "c" infiniteTable = .ok e ∧
      ∀ bindings, e.value bindings = .ok Number.infinity) ∧
    (∃ e, compile "one(-c)" infiniteTable = .ok e ∧ ∀ bindings, e.value bindings = .ok 1 ∧
      Applies infiniteTable bindings e.root "one" [-Number.infinity]) ∧
    ¬ Number.infinity.isFinite ∧ ¬ (-Number.infinity).isFinite := by
  have hparse : Formula.ofText "c" = .ok (.symbol "c" 0) := by cbv
  have hcheck : Formula.checkFrom infiniteTable "c" (.symbol "c" 0) [] = .ok [] := rfl
  refine ⟨⟨_, compile_eq_ok_iff.mpr ⟨_, _, hparse, hcheck, rfl⟩, fun bindings => rfl⟩,
    ⟨_, compile_call_infinite, fun bindings => ⟨?_, .call rfl⟩⟩, ?_, ?_⟩
  · show finite 1 0 = .ok 1
    decide +kernel
  · decide +kernel
  · decide +kernel

end Expression

end FunctionPlot
