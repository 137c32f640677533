/-
# Expressions compiled again

The text of an expression is compiled to an expression that has the same text, the same variables,
the same values and the same points.  Only the positions of domain faults differ.
-/
import FunctionPlot.Expression.Sampling
import FunctionPlot.Proofs.Formula.Meaning
import FunctionPlot.Proofs.Formula.RoundTrip

namespace FunctionPlot

/-- Two evaluations that end in the same way: with the same number, outside of the domain in the
same way, or in the same other fault. -/
inductive SameOutcome : Except ValueFault Float → Except ValueFault Float → Prop where
  /-- The same number. -/
  | value (y : Float) : SameOutcome (.ok y) (.ok y)
  /-- The same fault of the domain, maybe at different positions. -/
  | domain (fault : DomainFault) (position position' : Nat) :
      SameOutcome (.error (.domain fault position)) (.error (.domain fault position'))
  /-- The same fault of another kind. -/
  | other {fault : ValueFault} (h : ∀ kind position, fault ≠ .domain kind position) :
      SameOutcome (.error fault) (.error fault)

lemma sameOutcome_of_mapError {x y : Except ValueFault Float}
    (h : x.mapError ValueFault.stripped = y.mapError ValueFault.stripped) : SameOutcome x y := by
  cases x with
  | ok a =>
    rw [mapError_eq_ok.mp h.symm]
    exact .value a
  | error fault =>
    obtain ⟨fault', rfl, hfault⟩ := mapError_eq_error.mp h.symm
    -- only domain faults have positions
    cases fault <;> cases fault' <;> cases hfault
    · exact .domain _ _ _
    all_goals exact .other (by simp)

namespace Expression

variable {source : Text} {table : SymbolTable} {e e' : Expression}

lemma compile_eq_ok_iff : compile source table = .ok e ↔ ∃ f seen, Formula.ofText source = .ok f ∧
    Formula.checkFrom table source f [] = .ok seen ∧ e = ⟨source, f, table, seen⟩ := by
  rw [compile]
  cases Formula.ofText source with
  | error fault => simp [bind, Except.bind]
  | ok f =>
    cases hcheck : Formula.checkFrom table source f [] with
    | error fault => simp [bind, Except.bind, Formula.check, hcheck]
    | ok seen => simp [bind, Except.bind, Formula.check, hcheck, pure, Except.pure, eq_comm]

lemma pointAt_eq (h : ∀ bindings, SameOutcome (e.value bindings) (e'.value bindings)) (name : Text)
    (x : Float) : e.pointAt name x = e'.pointAt name x := by
  have houtcome := h (.single name x)
  rw [pointAt, pointAt]
  generalize e.value (.single name x) = y, e'.value (.single name x) = y' at houtcome ⊢
  cases houtcome with
  | value y => rfl
  | domain fault position position' => rfl
  | other hfault => rfl

lemma sample_eq (hfree : e.freeVariables = e'.freeVariables)
    (h : ∀ bindings, SameOutcome (e.value bindings) (e'.value bindings)) (name : Text)
    (low high count : Float) : e.sample name low high count = e'.sample name low high count := by
  rw [sample, sample, hfree]
  simp only [pointAt_eq h]

/-- The text of an expression means the same as the expression.  It is compiled to an expression
with the same text and the same variables in the same order; under all bindings, both have the same
value or none for the same reason, and all their samples are the same. -/
theorem compile_toText (h : compile source table = .ok e) : ∃ e', compile e.toText table = .ok e' ∧
    e'.toText = e.toText ∧ e'.freeVariables = e.freeVariables ∧
    (∀ bindings, SameOutcome (e.value bindings) (e'.value bindings)) ∧
    ∀ name low high count, e.sample name low high count = e'.sample name low high count := by
  obtain ⟨f, seen, hf, hcheck, rfl⟩ := compile_eq_ok_iff.mp h
  obtain ⟨hreadable, hheight⟩ := Formula.readable_of_ofText hf
  have hnorm := Formula.norm_eq_self hreadable
  have hcases := Formula.ofText_toText_cases hreadable.printable
  rw [hnorm] at hcases
  obtain ⟨-, g, hg, hstripped⟩ | ⟨hlt, -⟩ := hcases
  · have hcheck' := Formula.checkFrom_of_stripped hstripped hcheck f.toText
    have houtcome : ∀ bindings, SameOutcome (f.value table bindings) (g.value table bindings) :=
      fun bindings => sameOutcome_of_mapError
        (Formula.fault_value_of_stripped table bindings hstripped.symm)
    refine ⟨⟨f.toText, g, table, seen⟩, compile_eq_ok_iff.mpr ⟨g, seen, hg, hcheck', rfl⟩,
      Formula.toText_eq_of_stripped hstripped, rfl, houtcome, ?_⟩
    exact sample_eq rfl houtcome
  · omega

theorem compile_toText_parentheses : ∃ e e', compile "(x)-(pi/x)" .standard = .ok e ∧
    e.toText = "x - pi / x" ∧ compile "x - pi / x" .standard = .ok e' ∧ e'.freeVariables = ["x"] ∧
    ∀ bindings, SameOutcome (e.value bindings) (e'.value bindings) := by
  have hparse : Formula.ofText "(x)-(pi/x)" = .ok (.binary .sub (.symbol "x" 1)
      (.binary .div (.symbol "pi" 5) (.symbol "x" 8) 7) 3) := by cbv
  have htext : Formula.toText (.binary .sub (.symbol "x" 1)
      (.binary .div (.symbol "pi" 5) (.symbol "x" 8) 7) 3) = "x - pi / x" := by decide +kernel
  have hcheck : Formula.checkFrom .standard "(x)-(pi/x)" (.binary .sub (.symbol "x" 1)
      (.binary .div (.symbol "pi" 5) (.symbol "x" 8) 7) 3) [] = .ok ["x"] := rfl
  have hcompile := compile_eq_ok_iff.mpr ⟨_, _, hparse, hcheck, rfl⟩
  obtain ⟨e', he', -, hfree, hvalue, -⟩ := compile_toText hcompile
  exact ⟨_, e', hcompile, htext, htext ▸ he', hfree, hvalue⟩

end Expression

end FunctionPlot
