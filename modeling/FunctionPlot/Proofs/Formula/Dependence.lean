/-
# What a value depends on

The names of a formula, in their two roles, are all that the check and the evaluation look up.  If
two tables give these names the same meanings, the check comes to the same
(`Formula.checkFrom_eq_of_names`), and if two bindings give the same numbers to the variables too,
so does the evaluation (`Formula.value_eq_of_names`).

Of the names of variables the check records those that are independent.  An evaluation asks for the
numbers of all of them before it gives a value (`Formula.isSome_of_value`) and for no others, so
that the free variables of a formula are just what its values depend on
(`Formula.check_freeVariables`).
-/
import FunctionPlot.Proofs.Formula.Safety

namespace FunctionPlot

/-- A name is that of an independent variable. -/
def SymbolTable.IsIndependent (table : SymbolTable) (name : Text) : Prop :=
  ∃ description, table.variableSymbol? name = some (.independent description)

namespace Formula

mutual

/-- The names that stand in a formula in some role, from left to right. -/
def names (role : Role) : Formula → List Text
  | constant _ _ => []
  | symbol name _ => if role = .quantity then [name] else []
  | negation operand _ => operand.names role
  | binary _ left right _ => left.names role ++ right.names role
  | call function arguments _ =>
    (if role = .function then [function] else []) ++ allNames role arguments

/-- The names that stand in some formulas in some role. -/
def allNames (role : Role) : List Formula → List Text
  | [] => []
  | f :: rest => f.names role ++ allNames role rest

end

/-- Two tables give the names of a formula the same meanings. -/
structure SameMeanings (table table' : SymbolTable) (f : Formula) : Prop where
  /-- The functions that are called are the same. -/
  functionSymbol?_eq : ∀ name ∈ f.names .function,
    table'.functionSymbol? name = table.functionSymbol? name
  /-- The variables are the same. -/
  variableSymbol?_eq : ∀ name ∈ f.names .quantity,
    table'.variableSymbol? name = table.variableSymbol? name

variable {table table' : SymbolTable} {bindings bindings' : Bindings} {source source' : Text}
  {seen seen' : List Text} {f : Formula} {formulas : List Formula}

lemma mem_allNames {role : Role} {name : Text} :
    name ∈ allNames role formulas ↔ ∃ f ∈ formulas, name ∈ f.names role := by
  induction formulas with
  | nil => simp [allNames]
  | cons f rest ih => rw [allNames, List.mem_append, ih, List.exists_mem_cons_iff]

/-! ### The same meanings, the same outcome -/

namespace SameMeanings

lemma left {op : Operator} {left right : Formula} {position : Nat}
    (h : SameMeanings table table' (binary op left right position)) :
    SameMeanings table table' left :=
  ⟨(List.forall_mem_append.mp h.functionSymbol?_eq).1,
    (List.forall_mem_append.mp h.variableSymbol?_eq).1⟩

lemma right {op : Operator} {left right : Formula} {position : Nat}
    (h : SameMeanings table table' (binary op left right position)) :
    SameMeanings table table' right :=
  ⟨(List.forall_mem_append.mp h.functionSymbol?_eq).2,
    (List.forall_mem_append.mp h.variableSymbol?_eq).2⟩

lemma argument {function : Text} {arguments : List Formula} {position : Nat}
    (h : SameMeanings table table' (call function arguments position)) :
    ∀ a ∈ arguments, SameMeanings table table' a := by
  intro a ha
  constructor
  · intro name hname
    exact h.functionSymbol?_eq name (List.mem_cons_of_mem _ (mem_allNames.mpr ⟨a, ha, hname⟩))
  · intro name hname
    exact h.variableSymbol?_eq name (mem_allNames.mpr ⟨a, ha, hname⟩)

lemma function {function : Text} {arguments : List Formula} {position : Nat}
    (h : SameMeanings table table' (call function arguments position)) :
    table'.functionSymbol? function = table.functionSymbol? function :=
  h.functionSymbol?_eq function List.mem_cons_self

end SameMeanings

lemma checkAllFrom_congr
    (h : ∀ f ∈ formulas, ∀ seen seen', checkFrom table source f seen = .ok seen' →
      checkFrom table' source' f seen = .ok seen')
    (hcheck : checkAllFrom table source formulas seen = .ok seen') :
    checkAllFrom table' source' formulas seen = .ok seen' := by
  induction formulas generalizing seen with
  | nil => exact hcheck
  | cons f rest ih =>
    obtain ⟨hf, hrest⟩ := List.forall_mem_cons.mp h
    rw [checkAllFrom] at hcheck ⊢
    obtain ⟨middle, hmiddle, hcheck⟩ := bind_eq_ok.mp hcheck
    exact bind_eq_ok.mpr ⟨middle, hf seen middle hmiddle, ih hrest hcheck⟩

/-- A formula passes the check against every table that gives its names the same meanings, with the
same record. -/
theorem checkFrom_eq_of_names (hnames : SameMeanings table table' f)
    (hcheck : checkFrom table source f seen = .ok seen') :
    checkFrom table' source' f seen = .ok seen' := by
  induction f generalizing seen seen' with
  | constant value position => exact hcheck
  | symbol name position =>
    have hname := hnames.variableSymbol?_eq name List.mem_cons_self
    rw [checkFrom, checkSymbol] at hcheck ⊢
    rw [hname]
    split at hcheck
    · cases hcheck
    · exact hcheck
  | negation operand position ih => exact ih ⟨hnames.1, hnames.2⟩ hcheck
  | binary op left right position ihleft ihright =>
    rw [checkFrom] at hcheck ⊢
    obtain ⟨middle, hmiddle, hcheck⟩ := bind_eq_ok.mp hcheck
    exact bind_eq_ok.mpr ⟨middle, ihleft hnames.left hmiddle, ihright hnames.right hcheck⟩
  | call function arguments position ih =>
    rw [checkFrom] at hcheck ⊢
    obtain ⟨_, hcall, hcheck⟩ := bind_eq_ok.mp hcheck
    refine bind_eq_ok.mpr ⟨(), ?_, checkAllFrom_congr ?_ hcheck⟩
    · rw [checkCall] at hcall ⊢
      rw [hnames.function]
      split at hcall
      · cases hcall
      · split at hcall
        · rename_i hcount
          exact if_pos hcount
        · cases hcall
    · exact fun a ha seen seen' => ih a ha (hnames.argument a ha)

lemma values_eq_of_forall (h : ∀ f ∈ formulas, f.value table' bindings' = f.value table bindings) :
    values table' bindings' formulas = values table bindings formulas := by
  induction formulas with
  | nil => rfl
  | cons f rest ih =>
    obtain ⟨hf, hrest⟩ := List.forall_mem_cons.mp h
    rw [values, values, hf, ih hrest]

/-- A formula comes to the same under every table and bindings that give its names the same meanings
and its variables the same numbers. -/
theorem value_eq_of_names
    (hfunctions : ∀ name ∈ f.names .function,
      table'.functionSymbol? name = table.functionSymbol? name)
    (hvariables : ∀ name ∈ f.names .quantity, ∀ position,
      table'.variableValue bindings' name position = table.variableValue bindings name position) :
    f.value table' bindings' = f.value table bindings := by
  induction f with
  | constant value position => rfl
  | symbol name position =>
    rw [value, value]
    exact hvariables name List.mem_cons_self position
  | negation operand position ih => rw [value, value, ih hfunctions hvariables]
  | binary op left right position ihleft ihright =>
    obtain ⟨hfleft, hfright⟩ := List.forall_mem_append.mp hfunctions
    obtain ⟨hvleft, hvright⟩ := List.forall_mem_append.mp hvariables
    rw [value, value, ihleft hfleft hvleft, ihright hfright hvright]
  | call function arguments position ih =>
    have hvalues : values table' bindings' arguments = values table bindings arguments := by
      refine values_eq_of_forall fun a ha => ih a ha ?_ ?_
      · intro name hname
        exact hfunctions name (List.mem_cons_of_mem _ (mem_allNames.mpr ⟨a, ha, hname⟩))
      · intro name hname
        exact hvariables name (mem_allNames.mpr ⟨a, ha, hname⟩)
    have hfunction := hfunctions function List.mem_cons_self
    rw [value, value, hvalues]
    refine congrArg _ (funext fun xs => ?_)
    rw [SymbolTable.callValue, SymbolTable.callValue, hfunction]

/-! ### The free variables -/

lemma mem_checkAllFrom {name : Text}
    (h : ∀ f ∈ formulas, ∀ seen seen', checkFrom table source f seen = .ok seen' →
      (name ∈ seen' ↔ name ∈ seen ∨ name ∈ f.names .quantity ∧ table.IsIndependent name))
    (hcheck : checkAllFrom table source formulas seen = .ok seen') :
    name ∈ seen' ↔ name ∈ seen ∨ name ∈ allNames .quantity formulas ∧ table.IsIndependent name := by
  induction formulas generalizing seen with
  | nil =>
    cases hcheck
    simp [allNames]
  | cons f rest ih =>
    obtain ⟨hf, hrest⟩ := List.forall_mem_cons.mp h
    rw [checkAllFrom] at hcheck
    obtain ⟨middle, hmiddle, hcheck⟩ := bind_eq_ok.mp hcheck
    rw [ih hrest hcheck, hf seen middle hmiddle, allNames, List.mem_append, or_assoc, or_and_right]

/-- The check records the independent variables that stand in the formula, and nothing else. -/
lemma mem_checkFrom {name : Text} (hcheck : checkFrom table source f seen = .ok seen') :
    name ∈ seen' ↔ name ∈ seen ∨ name ∈ f.names .quantity ∧ table.IsIndependent name := by
  induction f generalizing seen seen' with
  | constant value position =>
    cases hcheck
    simp [names]
  | symbol quantity position =>
    have hnames : (symbol quantity position).names .quantity = [quantity] := rfl
    rw [hnames, List.mem_singleton]
    rw [checkFrom, checkSymbol] at hcheck
    split at hcheck
    · cases hcheck
    · rename_i meaning hmeaning
      cases hcheck
      cases meaning with
      | independent description =>
        show name ∈ record seen quantity ↔ _
        rw [mem_record]
        refine or_congr_right (and_iff_left_of_imp ?_).symm
        rintro rfl
        exact ⟨description, hmeaning⟩
      | constant value description =>
        show name ∈ seen ↔ _
        refine (or_iff_left ?_).symm
        rintro ⟨rfl, description', hindependent⟩
        rw [hmeaning] at hindependent
        cases hindependent
  | negation operand position ih => exact ih hcheck
  | binary op left right position ihleft ihright =>
    rw [checkFrom] at hcheck
    obtain ⟨middle, hmiddle, hcheck⟩ := bind_eq_ok.mp hcheck
    rw [ihright hcheck, ihleft hmiddle, names, List.mem_append, or_assoc, or_and_right]
  | call function arguments position ih =>
    rw [checkFrom] at hcheck
    obtain ⟨_, -, hcheck⟩ := bind_eq_ok.mp hcheck
    exact mem_checkAllFrom (fun a ha seen seen' => ih a ha) hcheck

lemma isSome_of_values {xs : List Float} {name : Text}
    (h : ∀ f ∈ formulas, ∀ y, f.value table bindings = .ok y → name ∈ f.names .quantity →
      (bindings name).isSome)
    (hvalues : values table bindings formulas = .ok xs)
    (hname : name ∈ allNames .quantity formulas) : (bindings name).isSome := by
  induction formulas generalizing xs with
  | nil => exact absurd hname List.not_mem_nil
  | cons f rest ih =>
    obtain ⟨hf, hrest⟩ := List.forall_mem_cons.mp h
    rw [values] at hvalues
    obtain ⟨y, hy, hvalues⟩ := bind_eq_ok.mp hvalues
    obtain ⟨ys, hys, -⟩ := bind_eq_ok.mp hvalues
    rcases List.mem_append.mp hname with hname | hname
    · exact hf y hy hname
    · exact ih hrest hys hname

/-- A formula that has a value was evaluated in all its parts, so that all its independent variables
are bound. -/
lemma isSome_of_value {y : Float} {name : Text} (h : f.value table bindings = .ok y)
    (hname : name ∈ f.names .quantity) (hindependent : table.IsIndependent name) :
    (bindings name).isSome := by
  induction f generalizing y with
  | constant value position => exact absurd hname List.not_mem_nil
  | symbol quantity position =>
    obtain rfl := List.mem_singleton.mp hname
    obtain ⟨description, hmeaning⟩ := hindependent
    rw [value, SymbolTable.variableValue, hmeaning] at h
    cases hbinding : bindings name with
    | none =>
      rw [hbinding] at h
      cases h
    | some x => rfl
  | negation operand position ih =>
    rw [value] at h
    obtain ⟨x, hx, -⟩ := bind_eq_ok.mp h
    exact ih hx hname
  | binary op left right position ihleft ihright =>
    rw [value] at h
    obtain ⟨x, hx, h⟩ := bind_eq_ok.mp h
    obtain ⟨z, hz, -⟩ := bind_eq_ok.mp h
    rcases List.mem_append.mp hname with hname | hname
    · exact ihleft hx hname
    · exact ihright hz hname
  | call function arguments position ih =>
    rw [value] at h
    obtain ⟨xs, hxs, -⟩ := bind_eq_ok.mp h
    exact isSome_of_values (fun a ha y hy hname => ih a ha hy hname) hxs hname

/-- A variable of a formula that passed the check has the same value under two bindings that agree
on the free variables. -/
lemma variableValue_congr {names : List Text} {name : Text}
    (hfree : table.IsIndependent name → name ∈ names)
    (hbindings : ∀ name ∈ names, bindings name = bindings' name) (position : Nat) :
    table.variableValue bindings name position = table.variableValue bindings' name position := by
  rw [SymbolTable.variableValue, SymbolTable.variableValue]
  split
  · rfl
  · rfl
  · rename_i description hmeaning
    rw [hbindings name (hfree ⟨description, hmeaning⟩)]

/-- The free variables are just what an evaluation reads.  They are the independent variables that
stand in the formula.  Bindings that agree on them give the same value or the same fault; a formula
has a value only if all of them are bound; and a table that gives the names of the formula the same
meanings lets it pass the check with the same free variables, and gives it the same values. -/
theorem check_freeVariables {checked : Checked} (hcheck : f.check table source = .ok checked) :
    (∀ name, name ∈ checked.freeVariables ↔
      name ∈ f.names .quantity ∧ table.IsIndependent name) ∧
    (∀ bindings bindings' : Bindings,
      (∀ name ∈ checked.freeVariables, bindings name = bindings' name) →
      checked.value bindings = checked.value bindings') ∧
    (∀ (bindings : Bindings) y, checked.value bindings = .ok y →
      ∀ name ∈ checked.freeVariables, (bindings name).isSome) ∧
    (∀ table' source', SameMeanings table table' f → ∃ checked',
      f.check table' source' = .ok checked' ∧ checked'.freeVariables = checked.freeVariables ∧
      ∀ bindings, checked'.value bindings = checked.value bindings) := by
  obtain ⟨freeVariables, hnames, hpure⟩ := bind_eq_ok.mp hcheck
  cases hpure
  have hfree : ∀ name, name ∈ freeVariables ↔
      name ∈ f.names .quantity ∧ table.IsIndependent name := by
    intro name
    rw [mem_checkFrom hnames]
    simp
  refine ⟨hfree, ?_, ?_, ?_⟩
  · intro bindings bindings' hbindings
    refine value_eq_of_names (fun _ _ => rfl) fun name hname position => ?_
    exact variableValue_congr (fun hindependent => (hfree name).mpr ⟨hname, hindependent⟩)
      hbindings position
  · intro bindings y hy name hname
    obtain ⟨hmem, hindependent⟩ := (hfree name).mp hname
    exact isSome_of_value hy hmem hindependent
  · intro table' source' hmeanings
    refine ⟨⟨f, table', freeVariables⟩, ?_, rfl, fun bindings => ?_⟩
    · exact bind_eq_ok.mpr ⟨freeVariables, checkFrom_eq_of_names hmeanings hnames, rfl⟩
    · refine value_eq_of_names hmeanings.functionSymbol?_eq fun name hname position => ?_
      rw [SymbolTable.variableValue, SymbolTable.variableValue,
        hmeanings.variableSymbol?_eq name hname]

/-- A table with the names of `pi * min(x, 1)` only will do for it. -/
theorem check_freeVariables_product : ∃ f checked,
    check f .standard "pi * min(x, 1)" = .ok checked ∧ checked.freeVariables = ["x"] ∧
    (∀ bindings bindings' : Bindings, bindings "x" = bindings' "x" →
      checked.value bindings = checked.value bindings') ∧
    (∀ (bindings : Bindings) y, checked.value bindings = .ok y → (bindings "x").isSome) ∧
    ∃ checked', check f ⟨[("min", ⟨2, "Smaller of two values", .ofBinary Number.least⟩)],
        [("x", .independent "Independent variable"),
         ("pi", .constant SymbolTable.pi
          "Ratio of a circle's circumference to its diameter")]⟩ [] = .ok checked' ∧
      checked'.freeVariables = ["x"] ∧
      ∀ bindings, checked'.value bindings = checked.value bindings := by
  have hcheck : check (.binary .mul (.symbol "pi" 0) (.call "min" [.symbol "x" 9, .constant 1 12] 5)
      3) .standard "pi * min(x, 1)" = .ok ⟨_, .standard, ["x"]⟩ := rfl
  obtain ⟨-, hbindings, hbound, htable⟩ := check_freeVariables hcheck
  refine ⟨_, _, hcheck, rfl, ?_, ?_, htable _ _ ⟨?_, ?_⟩⟩
  · intro bindings bindings' hx
    refine hbindings bindings bindings' fun name hname => ?_
    obtain rfl := List.mem_singleton.mp hname
    exact hx
  · intro bindings y hy
    exact hbound bindings y hy "x" (List.mem_singleton.mpr rfl)
  · intro name hname
    obtain rfl := List.mem_singleton.mp hname
    rfl
  · intro name hname
    rcases List.mem_cons.mp hname with rfl | hname
    · rfl
    · obtain rfl := List.mem_singleton.mp hname
      rfl

end Formula

end FunctionPlot
