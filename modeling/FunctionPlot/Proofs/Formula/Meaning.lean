/-
# Meanings and positions

The positions of a formula only say where its errors are.  Whether it passes the check and with
which variables, its value, and the causes of its errors are the same wherever its parts stand, so
that formulas which agree up to positions mean the same.
-/
import FunctionPlot.Formula.Value
import FunctionPlot.Proofs.Formula.Normal

namespace FunctionPlot

/-- A fault without its position. -/
def ValueFault.stripped : ValueFault → ValueFault
  | domain fault _ => domain fault 0
  | unknownVariable name => unknownVariable name
  | unknownFunction name => unknownFunction name
  | unbound name => unbound name
  | broken message => broken message

section MapError

variable {α β ε ε' : Type} {drop : ε → ε'}

lemma mapError_eq_ok {x : Except ε α} {a : α} : x.mapError drop = .ok a ↔ x = .ok a := by
  cases x <;> simp [Except.mapError]

lemma mapError_eq_error {x : Except ε α} {e : ε'} :
    x.mapError drop = .error e ↔ ∃ e', x = .error e' ∧ drop e' = e := by
  cases x <;> simp [Except.mapError]

lemma mapError_bind (x : Except ε α) (f : α → Except ε β) :
    (x >>= f).mapError drop = x.mapError drop >>= fun a => (f a).mapError drop := by
  cases x <;> rfl

/-- Two results agree up to what is dropped of their errors if their steps do. -/
lemma mapError_bind_congr {x y : Except ε α} {f g : α → Except ε β}
    (h : x.mapError drop = y.mapError drop)
    (hfg : ∀ a, (f a).mapError drop = (g a).mapError drop) :
    (x >>= f).mapError drop = (y >>= g).mapError drop := by
  rw [mapError_bind, mapError_bind, h, funext hfg]

end MapError

namespace Formula

variable {f g : Formula}

/-! ### The check -/

lemma cause_checkSymbol (table : SymbolTable) (source source' name : Text)
    (position position' : Nat) (seen : List Text) :
    (checkSymbol table source name position seen).mapError FormulaError.cause
      = (checkSymbol table source' name position' seen).mapError FormulaError.cause := by
  rw [checkSymbol, checkSymbol]
  cases table.variableSymbol? name <;> rfl

lemma cause_checkCall (table : SymbolTable) (source source' name : Text)
    (count position position' : Nat) :
    (checkCall table source name count position).mapError FormulaError.cause
      = (checkCall table source' name count position').mapError FormulaError.cause := by
  rw [checkCall, checkCall]
  cases table.functionSymbol? name with
  | none => rfl
  | some function =>
    by_cases hcount : (count : Int) = function.arity
    · simp only [if_pos hcount]
    · simp only [if_neg hcount]
      rfl

lemma cause_checkAllFrom (table : SymbolTable) (source source' : Text) {formulas : List Formula}
    (h : ∀ f ∈ formulas, ∀ seen,
      (checkFrom table source f.stripped seen).mapError FormulaError.cause
        = (checkFrom table source' f seen).mapError FormulaError.cause) :
    ∀ seen, (checkAllFrom table source (formulas.map stripped) seen).mapError FormulaError.cause
      = (checkAllFrom table source' formulas seen).mapError FormulaError.cause := by
  induction formulas with
  | nil => exact fun seen => rfl
  | cons f rest ih =>
    obtain ⟨hf, hrest⟩ := List.forall_mem_cons.mp h
    intro seen
    rw [List.map_cons, checkAllFrom, checkAllFrom]
    exact mapError_bind_congr (hf seen) (ih hrest)

/-- The check of a formula has the same result, or an error of the same cause, without positions and
for another source. -/
lemma cause_checkFrom_stripped (table : SymbolTable) (source source' : Text) (f : Formula) :
    ∀ seen, (checkFrom table source f.stripped seen).mapError FormulaError.cause
      = (checkFrom table source' f seen).mapError FormulaError.cause := by
  induction f with
  | constant value position => exact fun seen => rfl
  | symbol name position =>
    intro seen
    rw [stripped, checkFrom, checkFrom]
    exact cause_checkSymbol table source source' name 0 position seen
  | negation operand position ih =>
    intro seen
    rw [stripped, checkFrom, checkFrom]
    exact ih seen
  | binary op left right position ihleft ihright =>
    intro seen
    rw [stripped, checkFrom, checkFrom]
    exact mapError_bind_congr (ihleft seen) ihright
  | call function arguments position ih =>
    intro seen
    rw [stripped, checkFrom, checkFrom, strippedAll_eq_map, List.length_map]
    exact mapError_bind_congr (cause_checkCall table source source' function _ 0 position)
      fun _ => cause_checkAllFrom table source source' ih seen

/-- A formula passes the check if another one does that it agrees with up to positions. -/
lemma checkFrom_of_stripped {table : SymbolTable} {source : Text} {seen seen' : List Text}
    (h : f.stripped = g.stripped) (hg : checkFrom table source g seen = .ok seen')
    (source' : Text) : checkFrom table source' f seen = .ok seen' := by
  have hcause := cause_checkFrom_stripped table [] source g seen
  rw [← h, cause_checkFrom_stripped table [] source', hg] at hcause
  exact mapError_eq_ok.mp hcause

/-! ### The value -/

lemma fault_finite (value : Float) (position position' : Nat) :
    (finite value position).mapError ValueFault.stripped
      = (finite value position').mapError ValueFault.stripped := by
  rw [finite, finite]
  split <;> rfl

lemma fault_apply (op : Operator) (left right : Float) (position position' : Nat) :
    (op.apply left right position).mapError ValueFault.stripped
      = (op.apply left right position').mapError ValueFault.stripped := by
  cases op with
  | add | sub | mul => exact fault_finite _ position position'
  | div =>
    rw [Operator.apply, Operator.apply]
    split
    · rfl
    · exact fault_finite _ position position'
  | pow =>
    rw [Operator.apply, Operator.apply]
    split
    · rfl
    · exact fault_finite _ position position'

lemma fault_variableValue (table : SymbolTable) (bindings : Bindings) (name : Text)
    (position position' : Nat) :
    (table.variableValue bindings name position).mapError ValueFault.stripped
      = (table.variableValue bindings name position').mapError ValueFault.stripped := by
  rw [SymbolTable.variableValue, SymbolTable.variableValue]
  cases table.variableSymbol? name with
  | none => rfl
  | some meaning =>
    cases meaning with
    | constant value description => rfl
    | independent description =>
      cases bindings name with
      | none => rfl
      | some value => exact fault_finite value position position'

lemma fault_callValue (table : SymbolTable) (name : Text) (arguments : List Float)
    (position position' : Nat) :
    (table.callValue name arguments position).mapError ValueFault.stripped
      = (table.callValue name arguments position').mapError ValueFault.stripped := by
  rw [SymbolTable.callValue, SymbolTable.callValue]
  cases table.functionSymbol? name with
  | none => rfl
  | some function =>
    cases hrule : function.rule arguments with
    | ok value =>
      simp only [hrule]
      exact fault_finite value position position'
    | error fault =>
      simp only [hrule]
      cases fault <;> rfl

lemma fault_values_stripped (table : SymbolTable) (bindings : Bindings) {formulas : List Formula}
    (h : ∀ f ∈ formulas, (f.stripped.value table bindings).mapError ValueFault.stripped
      = (f.value table bindings).mapError ValueFault.stripped) :
    (values table bindings (formulas.map stripped)).mapError ValueFault.stripped
      = (values table bindings formulas).mapError ValueFault.stripped := by
  induction formulas with
  | nil => rfl
  | cons f rest ih =>
    obtain ⟨hf, hrest⟩ := List.forall_mem_cons.mp h
    rw [List.map_cons, values, values]
    exact mapError_bind_congr hf fun x => mapError_bind_congr (ih hrest) fun xs => rfl

lemma fault_value_stripped (table : SymbolTable) (bindings : Bindings) (f : Formula) :
    (f.stripped.value table bindings).mapError ValueFault.stripped
      = (f.value table bindings).mapError ValueFault.stripped := by
  induction f with
  | constant value position => rfl
  | symbol name position =>
    rw [stripped, value, value]
    exact fault_variableValue table bindings name 0 position
  | negation operand position ih =>
    rw [stripped, value, value]
    exact mapError_bind_congr ih fun x => rfl
  | binary op left right position ihleft ihright =>
    rw [stripped, value, value]
    exact mapError_bind_congr ihleft fun x => mapError_bind_congr ihright fun y =>
      fault_apply op x y 0 position
  | call function arguments position ih =>
    rw [stripped, value, value, strippedAll_eq_map]
    exact mapError_bind_congr (fault_values_stripped table bindings ih) fun xs =>
      fault_callValue table function xs 0 position

/-- Formulas that agree up to positions have the same value, or none for the same reason. -/
theorem fault_value_of_stripped (table : SymbolTable) (bindings : Bindings)
    (h : f.stripped = g.stripped) :
    (f.value table bindings).mapError ValueFault.stripped
      = (g.value table bindings).mapError ValueFault.stripped := by
  rw [← fault_value_stripped, h, fault_value_stripped]

end Formula

end FunctionPlot
