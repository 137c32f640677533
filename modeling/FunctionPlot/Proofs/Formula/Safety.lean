/-
# What a check promises

A formula that passes the check against a table is evaluated safely once its free variables are
bound: it has a value or is outside of the domain of some operation, and only a rule of the table
can break it (`Formula.check_safe`).

`Formula.Resolves` is what the check finds out, without its order: all names have a meaning, and
calls have as many arguments as their functions take.  `Formula.Applies` says which rules are
applied to which numbers when a formula is evaluated.  A value depends on these applications only
(`Formula.value_congr`), and in a formula that passed the check all of them are to as many numbers
as the function takes, and to finite ones if no number that goes in is infinite or `NaN`.
-/
import FunctionPlot.Proofs.Formula.Normal
import FunctionPlot.Formula.Value

namespace FunctionPlot

section Bind

variable {ε α β : Type} {x : Except ε α} {g : α → Except ε β}

lemma bind_eq_ok {b : β} : x >>= g = .ok b ↔ ∃ a, x = .ok a ∧ g a = .ok b := by
  cases x <;> simp [bind, Except.bind]

lemma bind_eq_error {e : ε} :
    x >>= g = .error e ↔ x = .error e ∨ ∃ a, x = .ok a ∧ g a = .error e := by
  cases x <;> simp [bind, Except.bind]

end Bind

/-- A table gives the variables the same meaning as another one and the functions the same number of
arguments, and its rules agree with those of the other on as many arguments that all have some
property. -/
structure SymbolTable.AgreesOn (p : Float → Prop) (table table' : SymbolTable) : Prop where
  variableSymbol?_eq : ∀ name, table.variableSymbol? name = table'.variableSymbol? name
  functionSymbol?_rel : ∀ name, Option.Rel (fun function function' =>
    function.arity = function'.arity ∧ ∀ xs : List Float, (xs.length : Int) = function.arity →
      (∀ x ∈ xs, p x) → function.rule xs = function'.rule xs)
    (table.functionSymbol? name) (table'.functionSymbol? name)

/-- The constants of a table are finite. -/
def SymbolTable.FiniteConstants (table : SymbolTable) : Prop :=
  ∀ name value description,
    table.variableSymbol? name = some (.constant value description) → value.isFinite

lemma SymbolTable.finiteConstants_standard : standard.FiniteConstants := by
  intro name value description h
  have hentries : standard.variableEntries = standardVariables := rfl
  rw [variableSymbol?, hentries, standardVariables, Entries.get?_cons, Entries.get?_cons,
    Entries.get?_cons, Entries.get?_nil] at h
  split at h
  · cases h
  split at h
  · cases h
    decide +kernel
  split at h
  · cases h
    decide +kernel
  · cases h

namespace Formula

/-- A function is applied to some numbers when a formula is evaluated.  All that is evaluated before
has a value. -/
inductive Applies (table : SymbolTable) (bindings : Bindings) : Formula → Text → List Float → Prop
  /-- The function of a call is applied to the values of the arguments. -/
  | call {name : Text} {arguments : List Formula} {position : Nat} {xs : List Float}
      (h : values table bindings arguments = .ok xs) :
      Applies table bindings (call name arguments position) name xs
  /-- An application in an argument. -/
  | argument {function name : Text} {before after : List Formula} {a : Formula} {position : Nat}
      {xs ys : List Float} (before_eq : values table bindings before = .ok ys)
      (h : Applies table bindings a name xs) :
      Applies table bindings (call function (before ++ a :: after) position) name xs
  /-- An application in what is negated. -/
  | operand {name : Text} {operand : Formula} {position : Nat} {xs : List Float}
      (h : Applies table bindings operand name xs) :
      Applies table bindings (negation operand position) name xs
  /-- An application in the left operand. -/
  | left {name : Text} {op : Operator} {left right : Formula} {position : Nat} {xs : List Float}
      (h : Applies table bindings left name xs) :
      Applies table bindings (binary op left right position) name xs
  /-- An application in the right operand. -/
  | right {name : Text} {op : Operator} {left right : Formula} {position : Nat} {xs : List Float}
      {x : Float} (left_eq : left.value table bindings = .ok x)
      (h : Applies table bindings right name xs) :
      Applies table bindings (binary op left right position) name xs

mutual

/-- The names of a formula have meanings in a table, calls have as many arguments as the functions
take, and the independent variables are among some names. -/
def Resolves (table : SymbolTable) (names : List Text) : Formula → Prop
  | constant _ _ => True
  | symbol name _ => ∃ meaning, table.variableSymbol? name = some meaning ∧
    (meaning.isIndependent → name ∈ names)
  | negation operand _ => operand.Resolves table names
  | binary _ left right _ => left.Resolves table names ∧ right.Resolves table names
  | call name arguments _ => (∃ function, table.functionSymbol? name = some function ∧
    (arguments.length : Int) = function.arity) ∧ AllResolve table names arguments

/-- Some formulas of which the same holds. -/
def AllResolve (table : SymbolTable) (names : List Text) : List Formula → Prop
  | [] => True
  | f :: rest => f.Resolves table names ∧ AllResolve table names rest

end

variable {table table' : SymbolTable} {bindings : Bindings} {source name : Text}
  {seen seen' names : List Text} {f : Formula} {formulas : List Formula} {xs : List Float}

lemma allResolve_iff (formulas : List Formula) :
    AllResolve table names formulas ↔ ∀ f ∈ formulas, f.Resolves table names := by
  induction formulas with
  | nil => simp [AllResolve]
  | cons f rest ih => rw [AllResolve, ih, List.forall_mem_cons]

/-! ### The check -/

lemma mem_record {other : Text} : other ∈ record seen name ↔ other ∈ seen ∨ other = name := by
  rw [record]
  split
  · rename_i hmem
    exact ⟨.inl, fun h => h.elim id fun heq => heq ▸ hmem⟩
  · simp

lemma Resolves.mono {names' : List Text} (h : f.Resolves table names) (hnames : names ⊆ names') :
    f.Resolves table names' := by
  induction f with
  | constant value position => trivial
  | symbol name position =>
    obtain ⟨meaning, hmeaning, hmem⟩ := h
    exact ⟨meaning, hmeaning, fun hindependent => hnames (hmem hindependent)⟩
  | negation operand position ih => exact ih h
  | binary op left right position ihleft ihright => exact ⟨ihleft h.1, ihright h.2⟩
  | call function arguments position ih =>
    refine ⟨h.1, (allResolve_iff arguments).mpr fun a ha => ih a ha ?_⟩
    exact (allResolve_iff arguments).mp h.2 a ha

/-- What a check that went well knows: nothing recorded is lost, and the formula resolves with what
is recorded. -/
lemma resolves_of_checkAllFrom
    (h : ∀ f ∈ formulas, ∀ seen seen', checkFrom table source f seen = .ok seen' →
      seen ⊆ seen' ∧ f.Resolves table seen')
    (hcheck : checkAllFrom table source formulas seen = .ok seen') :
    seen ⊆ seen' ∧ AllResolve table seen' formulas := by
  induction formulas generalizing seen with
  | nil =>
    cases hcheck
    exact ⟨List.Subset.refl _, trivial⟩
  | cons f rest ih =>
    obtain ⟨hf, hrest⟩ := List.forall_mem_cons.mp h
    rw [checkAllFrom] at hcheck
    obtain ⟨middle, hmiddle, hcheck⟩ := bind_eq_ok.mp hcheck
    obtain ⟨hsubset, hresolves⟩ := hf seen middle hmiddle
    obtain ⟨hsubset', hresolves'⟩ := ih hrest hcheck
    exact ⟨List.Subset.trans hsubset hsubset', hresolves.mono hsubset', hresolves'⟩

lemma resolves_of_checkFrom (hcheck : checkFrom table source f seen = .ok seen') :
    seen ⊆ seen' ∧ f.Resolves table seen' := by
  induction f generalizing seen seen' with
  | constant value position =>
    cases hcheck
    exact ⟨List.Subset.refl _, trivial⟩
  | symbol name position =>
    rw [checkFrom, checkSymbol] at hcheck
    split at hcheck
    · cases hcheck
    · rename_i meaning hmeaning
      cases hcheck
      split
      · exact ⟨fun other hother => mem_record.mpr (.inl hother), meaning, hmeaning,
          fun _ => mem_record.mpr (.inr rfl)⟩
      · rename_i hindependent
        exact ⟨List.Subset.refl _, meaning, hmeaning, fun h => absurd h hindependent⟩
  | negation operand position ih => exact ih hcheck
  | binary op left right position ihleft ihright =>
    rw [checkFrom] at hcheck
    obtain ⟨middle, hmiddle, hcheck⟩ := bind_eq_ok.mp hcheck
    obtain ⟨hsubset, hresolves⟩ := ihleft hmiddle
    obtain ⟨hsubset', hresolves'⟩ := ihright hcheck
    exact ⟨List.Subset.trans hsubset hsubset', hresolves.mono hsubset', hresolves'⟩
  | call function arguments position ih =>
    rw [checkFrom] at hcheck
    obtain ⟨_, hcall, hcheck⟩ := bind_eq_ok.mp hcheck
    obtain ⟨hsubset, hresolves⟩ :=
      resolves_of_checkAllFrom (fun a ha seen seen' => ih a ha) hcheck
    refine ⟨hsubset, ?_, hresolves⟩
    rw [checkCall] at hcall
    split at hcall
    · cases hcall
    · rename_i meaning hmeaning
      split at hcall
      · rename_i hcount
        exact ⟨meaning, hmeaning, hcount⟩
      · cases hcall

/-- The check looks at nothing in a table but the variables and the numbers of arguments. -/
lemma checkFrom_of_agreesOn {p : Float → Prop} (h : table.AgreesOn p table') (f : Formula) :
    ∀ seen, checkFrom table' source f seen = checkFrom table source f seen := by
  induction f with
  | constant value position => exact fun seen => rfl
  | symbol name position =>
    intro seen
    rw [checkFrom, checkFrom, checkSymbol, checkSymbol, h.variableSymbol?_eq]
  | negation operand position ih => exact fun seen => ih seen
  | binary op left right position ihleft ihright =>
    intro seen
    rw [checkFrom, checkFrom, ihleft]
    exact congrArg _ (funext ihright)
  | call function arguments position ih =>
    have hall : ∀ seen, checkAllFrom table' source arguments seen
        = checkAllFrom table source arguments seen := by
      induction arguments with
      | nil => exact fun seen => rfl
      | cons a rest ihrest =>
        obtain ⟨ha, hrest⟩ := List.forall_mem_cons.mp ih
        intro seen
        rw [checkAllFrom, checkAllFrom, ha]
        exact congrArg _ (funext (ihrest hrest))
    intro seen
    have hcall : checkCall table' source function arguments.length position
        = checkCall table source function arguments.length position := by
      have hrel := h.functionSymbol?_rel function
      rw [checkCall, checkCall]
      generalize table.functionSymbol? function = meaning?,
        table'.functionSymbol? function = meaning?' at hrel
      cases hrel with
      | none => rfl
      | some hmeanings => simp only [hmeanings.1]
    rw [checkFrom, checkFrom, hcall]
    exact congrArg _ (funext fun _ => hall seen)

/-! ### The applications -/

lemma length_values {ys : List Float} (h : values table bindings formulas = .ok ys) :
    ys.length = formulas.length := by
  induction formulas generalizing ys with
  | nil =>
    cases h
    rfl
  | cons f rest ih =>
    rw [values] at h
    obtain ⟨y, -, h⟩ := bind_eq_ok.mp h
    obtain ⟨ys, hys, h⟩ := bind_eq_ok.mp h
    cases h
    rw [List.length_cons, List.length_cons, ih hys]

/-- A function of the table is applied to as many numbers as it takes. -/
lemma Applies.arity_eq (h : Applies table bindings f name xs) (hf : f.Resolves table names) :
    ∃ function, table.functionSymbol? name = some function ∧
      (xs.length : Int) = function.arity := by
  induction h with
  | call hvalues =>
    obtain ⟨⟨function, hfunction, hcount⟩, -⟩ := hf
    exact ⟨function, hfunction, by rw [length_values hvalues, hcount]⟩
  | argument hbefore h ih =>
    refine ih ((allResolve_iff _).mp hf.2 _ ?_)
    exact List.mem_append_right _ List.mem_cons_self
  | operand h ih => exact ih hf
  | left h ih => exact ih hf.1
  | right hleft h ih => exact ih hf.2

/-! ### Safety -/

/-- The outcomes of an evaluation in which nothing is wrong but, at most, a rule: there is a number,
or no number at the arguments of some operation, or a rule that was applied is broken. -/
def Safe (table : SymbolTable) (bindings : Bindings) (f : Formula) : Except ValueFault Float → Prop
  | .ok _ => True
  | .error (.domain _ _) => True
  | .error (.broken message) => ∃ name xs function, Applies table bindings f name xs ∧
    table.functionSymbol? name = some function ∧ function.rule xs = .error (.broken message)
  | .error _ => False

lemma Safe.of_part {g : Formula} {fault : ValueFault}
    (h : Safe table bindings g (.error fault))
    (hpart : ∀ name xs, Applies table bindings g name xs → Applies table bindings f name xs) :
    Safe table bindings f (.error fault) := by
  cases fault with
  | domain kind position => trivial
  | broken message =>
    obtain ⟨name, xs, function, happlies, hfunction, hrule⟩ := h
    exact ⟨name, xs, function, hpart name xs happlies, hfunction, hrule⟩
  | unknownVariable name | unknownFunction name | unbound name => exact h

lemma safe_finite (value : Float) (position : Nat) :
    Safe table bindings f (finite value position) := by
  rw [finite]
  split <;> trivial

lemma safe_apply (op : Operator) (x y : Float) (position : Nat) :
    Safe table bindings f (op.apply x y position) := by
  cases op with
  | add | sub | mul => exact safe_finite _ position
  | div =>
    rw [Operator.apply]
    split
    · trivial
    · exact safe_finite _ position
  | pow =>
    rw [Operator.apply]
    split
    · trivial
    · exact safe_finite _ position

/-- If some formulas do not all have values, there is a first one that has none. -/
lemma exists_of_values_eq_error {fault : ValueFault}
    (h : values table bindings formulas = .error fault) : ∃ before a after ys,
      formulas = before ++ a :: after ∧ values table bindings before = .ok ys ∧
        a.value table bindings = .error fault := by
  induction formulas with
  | nil => cases h
  | cons f rest ih =>
    rw [values] at h
    rcases bind_eq_error.mp h with hf | ⟨y, hy, h⟩
    · exact ⟨[], f, rest, [], rfl, rfl, hf⟩
    rcases bind_eq_error.mp h with hrest | ⟨ys, -, h⟩
    · obtain ⟨before, a, after, ys, rfl, hys, ha⟩ := ih hrest
      refine ⟨f :: before, a, after, y :: ys, rfl, ?_, ha⟩
      rw [values, hy, hys]
      rfl
    · cases h

/-- A formula that resolves is evaluated safely under a binding of its free variables. -/
theorem safe_value (h : f.Resolves table names)
    (hbound : ∀ name ∈ names, (bindings name).isSome) :
    Safe table bindings f (f.value table bindings) := by
  induction f with
  | constant value position => trivial
  | symbol name position =>
    obtain ⟨meaning, hmeaning, hmem⟩ := h
    rw [value, SymbolTable.variableValue, hmeaning]
    cases meaning with
    | constant value description => trivial
    | independent description =>
      obtain ⟨x, hx⟩ := Option.isSome_iff_exists.mp (hbound name (hmem rfl))
      simp only [hx]
      exact safe_finite x position
  | negation operand position ih =>
    rw [value]
    cases hx : operand.value table bindings with
    | ok x => trivial
    | error fault => exact (hx ▸ ih h).of_part fun _ _ => .operand
  | binary op left right position ihleft ihright =>
    rw [value]
    cases hx : left.value table bindings with
    | error fault => exact (hx ▸ ihleft h.1).of_part fun _ _ => .left
    | ok x =>
      cases hy : right.value table bindings with
      | error fault => exact (hy ▸ ihright h.2).of_part fun _ _ => .right hx
      | ok y => exact safe_apply op x y position
  | call function arguments position ih =>
    obtain ⟨⟨meaning, hmeaning, -⟩, hall⟩ := h
    rw [value]
    cases hxs : values table bindings arguments with
    | error fault =>
      -- the fault is in the first argument without a value, and all in front of it were evaluated
      obtain ⟨before, a, after, ys, rfl, hys, ha⟩ := exists_of_values_eq_error hxs
      have hmem : a ∈ before ++ a :: after := List.mem_append_right _ List.mem_cons_self
      have hsafe := ih a hmem ((allResolve_iff _).mp hall a hmem)
      rw [ha] at hsafe
      exact hsafe.of_part fun _ _ => .argument hys
    | ok xs =>
      change Safe _ _ _ (table.callValue function xs position)
      rw [SymbolTable.callValue, hmeaning]
      simp only
      cases hrule : meaning.rule xs with
      | ok value => exact safe_finite value position
      | error fault =>
        cases fault with
        | domain kind => trivial
        | broken message => exact ⟨function, xs, meaning, .call hxs, hmeaning, hrule⟩

/-! ### Other rules -/

lemma values_congr
    (h : ∀ f ∈ formulas, (∀ name xs, Applies table bindings f name xs → ∀ position,
      table'.callValue name xs position = table.callValue name xs position) →
      f.value table' bindings = f.value table bindings)
    (happlies : ∀ before a after ys, formulas = before ++ a :: after →
      values table bindings before = .ok ys → ∀ name xs, Applies table bindings a name xs →
      ∀ position, table'.callValue name xs position = table.callValue name xs position) :
    values table' bindings formulas = values table bindings formulas := by
  induction formulas with
  | nil => rfl
  | cons f rest ih =>
    obtain ⟨hf, hrest⟩ := List.forall_mem_cons.mp h
    rw [values, values, hf (happlies [] f rest [] rfl rfl)]
    cases hx : f.value table bindings with
    | error fault => rfl
    | ok x =>
      -- the first of the formulas is in front of all that is applied in the others
      have hvalues := ih hrest fun before a after ys hsplit hys => by
        refine happlies (f :: before) a after (x :: ys) (by rw [hsplit, List.cons_append]) ?_
        rw [values, hx, hys]
        rfl
      rw [hvalues]

/-- The value of a formula depends on the variables and on the applications of functions only. -/
theorem value_congr
    (hvariables : ∀ name, table.variableSymbol? name = table'.variableSymbol? name)
    (happlies : ∀ name xs, Applies table bindings f name xs → ∀ position,
      table'.callValue name xs position = table.callValue name xs position) :
    f.value table' bindings = f.value table bindings := by
  induction f with
  | constant value position => rfl
  | symbol name position =>
    rw [value, value, SymbolTable.variableValue, SymbolTable.variableValue, hvariables]
  | negation operand position ih =>
    rw [value, value, ih fun name xs h => happlies name xs (.operand h)]
  | binary op left right position ihleft ihright =>
    rw [value, value, ihleft fun name xs h => happlies name xs (.left h)]
    cases hx : left.value table bindings with
    | error fault => rfl
    | ok x => rw [ihright fun name xs h => happlies name xs (.right hx h)]
  | call function arguments position ih =>
    have hvalues : values table' bindings arguments = values table bindings arguments := by
      refine values_congr ih fun before a after ys hsplit hys name xs h => ?_
      subst hsplit
      exact happlies name xs (.argument hys h)
    rw [value, value, hvalues]
    cases hxs : values table bindings arguments with
    | error fault => rfl
    | ok xs => exact happlies function xs (.call hxs) position

lemma callValue_of_agreesOn {p : Float → Prop} (h : table.AgreesOn p table')
    {function : FunctionSymbol} (hfunction : table.functionSymbol? name = some function)
    (hcount : (xs.length : Int) = function.arity) (hxs : ∀ x ∈ xs, p x) (position : Nat) :
    table'.callValue name xs position = table.callValue name xs position := by
  have hrel := h.functionSymbol?_rel name
  rw [hfunction] at hrel
  rw [SymbolTable.callValue, SymbolTable.callValue, hfunction]
  generalize table'.functionSymbol? name = meaning? at hrel
  cases hrel with
  | some hmeanings => simp only [hmeanings.2 xs hcount hxs]

/-- Rules that agree wherever they are applied make no difference. -/
theorem check_of_agreesOn {p : Float → Prop} {checked : Checked}
    (hcheck : f.check table source = .ok checked) (h : table.AgreesOn p table')
    (hp : ∀ bindings name xs, Applies table bindings f name xs → ∀ x ∈ xs, p x) :
    ∃ checked', f.check table' source = .ok checked' ∧
      checked'.freeVariables = checked.freeVariables ∧
      ∀ bindings, checked'.value bindings = checked.value bindings := by
  obtain ⟨names, hnames, hpure⟩ := bind_eq_ok.mp hcheck
  cases hpure
  have hresolves := (resolves_of_checkFrom hnames).2
  refine ⟨⟨f, table', names⟩, ?_, rfl, fun bindings => ?_⟩
  · rw [check, checkFrom_of_agreesOn h, hnames]
    rfl
  · refine value_congr h.variableSymbol?_eq fun name xs happlies position => ?_
    obtain ⟨function, hfunction, hcount⟩ := happlies.arity_eq hresolves
    exact callValue_of_agreesOn h hfunction hcount (hp bindings name xs happlies) position

/-! ### Finite numbers -/

/-- A formula of finite numbers. -/
def FiniteConstants (f : Formula) : Prop := f.Over (fun value => value.isFinite) fun _ => True

/-- A formula is a constant of a table that is not finite, maybe behind minus signs. -/
def IsUnbounded (table : SymbolTable) : Formula → Prop
  | symbol name _ => ∃ value description,
    table.variableSymbol? name = some (.constant value description) ∧ ¬ value.isFinite
  | negation operand _ => operand.IsUnbounded table
  | _ => False

lemma isFinite_of_finite {x y : Float} {position : Nat} (h : finite x position = .ok y) :
    y.isFinite := by
  rw [finite] at h
  split at h
  · rename_i hx
    cases h
    exact hx
  · cases h

lemma isFinite_of_apply {op : Operator} {x y z : Float} {position : Nat}
    (h : op.apply x y position = .ok z) : z.isFinite := by
  cases op with
  | add | sub | mul => exact isFinite_of_finite h
  | div | pow =>
    rw [Operator.apply] at h
    split at h
    · cases h
    · exact isFinite_of_finite h

lemma isFinite_iff_of_variableValue {position : Nat} {y : Float}
    (h : table.variableValue bindings name position = .ok y) :
    y.isFinite ↔ ¬ (symbol name position).IsUnbounded table := by
  rw [SymbolTable.variableValue] at h
  split at h
  · cases h
  · rename_i value description hmeaning
    cases h
    constructor
    · rintro hfinite ⟨value, description, hmeaning', hunbounded⟩
      rw [hmeaning] at hmeaning'
      cases hmeaning'
      exact hunbounded hfinite
    · intro hbounded
      by_contra hunbounded
      exact hbounded ⟨y, description, hmeaning, hunbounded⟩
  · rename_i description hmeaning
    split at h
    · cases h
    · refine iff_of_true (isFinite_of_finite h) ?_
      rintro ⟨value, description', hmeaning', -⟩
      rw [hmeaning] at hmeaning'
      cases hmeaning'

lemma isFinite_of_callValue {position : Nat} {y : Float}
    (h : table.callValue name xs position = .ok y) : y.isFinite := by
  rw [SymbolTable.callValue] at h
  split at h
  · cases h
  · split at h
    · exact isFinite_of_finite h
    · cases h
    · cases h

lemma isFinite_of_values {ys : List Float}
    (h : ∀ f ∈ formulas, ∀ y, f.value table bindings = .ok y → y.isFinite)
    (hvalues : values table bindings formulas = .ok ys) : ∀ y ∈ ys, y.isFinite := by
  induction formulas generalizing ys with
  | nil =>
    cases hvalues
    simp
  | cons f rest ih =>
    obtain ⟨hf, hrest⟩ := List.forall_mem_cons.mp h
    rw [values] at hvalues
    obtain ⟨y, hy, hvalues⟩ := bind_eq_ok.mp hvalues
    obtain ⟨ys, hys, hvalues⟩ := bind_eq_ok.mp hvalues
    cases hvalues
    exact List.forall_mem_cons.mpr ⟨hf y hy, ih hrest hys⟩

/-- The value of a formula of finite numbers is finite unless the formula is a constant that is not,
since every operation but the change of a sign looks at its result. -/
theorem isFinite_iff_of_value (hf : f.FiniteConstants) {y : Float}
    (h : f.value table bindings = .ok y) : y.isFinite ↔ ¬ f.IsUnbounded table := by
  induction f generalizing y with
  | constant value position =>
    cases h
    exact iff_of_true hf id
  | symbol name position => exact isFinite_iff_of_variableValue h
  | negation operand position ih =>
    rw [value] at h
    obtain ⟨x, hx, h⟩ := bind_eq_ok.mp h
    cases h
    rw [Number.isFinite_neg_iff, ih hf hx]
    rfl
  | binary op left right position ihleft ihright =>
    rw [value] at h
    obtain ⟨x, -, h⟩ := bind_eq_ok.mp h
    obtain ⟨y, -, h⟩ := bind_eq_ok.mp h
    exact iff_of_true (isFinite_of_apply h) id
  | call function arguments position ih =>
    rw [value] at h
    obtain ⟨xs, -, h⟩ := bind_eq_ok.mp h
    exact iff_of_true (isFinite_of_callValue h) id

lemma not_isUnbounded (htable : table.FiniteConstants) (f : Formula) : ¬ f.IsUnbounded table := by
  induction f with
  | symbol name position =>
    rintro ⟨value, description, hmeaning, hunbounded⟩
    exact hunbounded (htable name value description hmeaning)
  | negation operand position ih => exact ih
  | constant | binary | call => exact id

/-- Formulas of finite numbers over tables with finite constants have finite values only. -/
theorem isFinite_of_value (htable : table.FiniteConstants) (hf : f.FiniteConstants) {y : Float}
    (h : f.value table bindings = .ok y) : y.isFinite :=
  (isFinite_iff_of_value hf h).mpr (not_isUnbounded htable f)

/-- In such formulas functions are applied to finite numbers only. -/
lemma Applies.isFinite (htable : table.FiniteConstants) (hf : f.FiniteConstants)
    (h : Applies table bindings f name xs) : ∀ x ∈ xs, x.isFinite := by
  induction h with
  | call hvalues =>
    refine isFinite_of_values (fun a ha y hy => ?_) hvalues
    exact isFinite_of_value htable ((allOver_iff _).mp hf.2 a ha) hy
  | argument hbefore h ih =>
    refine ih ((allOver_iff _).mp hf.2 _ ?_)
    exact List.mem_append_right _ List.mem_cons_self
  | operand h ih => exact ih hf
  | left h ih => exact ih hf.1
  | right hleft h ih => exact ih hf.2

/-- A formula that passes the check is safe.  If its free variables are bound, it has a value or is
outside of the domain of an operation, or a rule is broken that was applied; functions are applied
to as many numbers as they take, so that rules can be exchanged for others that agree on so many
numbers; and if all constants are finite, it is enough that they agree on finite ones. -/
theorem check_safe {checked : Checked} (hcheck : f.check table source = .ok checked) :
    (∀ bindings : Bindings, (∀ name ∈ checked.freeVariables, (bindings name).isSome) →
      (∃ y, checked.value bindings = .ok y) ∨
      (∃ kind position, checked.value bindings = .error (.domain kind position)) ∨
      ∃ message name xs function, checked.value bindings = .error (.broken message) ∧
        Applies table bindings f name xs ∧ table.functionSymbol? name = some function ∧
        function.rule xs = .error (.broken message)) ∧
    (∀ bindings name xs, Applies table bindings f name xs → ∃ function,
      table.functionSymbol? name = some function ∧ (xs.length : Int) = function.arity) ∧
    (∀ table', table.AgreesOn (fun _ => True) table' → ∃ checked',
      f.check table' source = .ok checked' ∧ checked'.freeVariables = checked.freeVariables ∧
      ∀ bindings, checked'.value bindings = checked.value bindings) ∧
    (f.FiniteConstants → table.FiniteConstants → ∀ table',
      table.AgreesOn (fun x => x.isFinite) table' → ∃ checked',
      f.check table' source = .ok checked' ∧ checked'.freeVariables = checked.freeVariables ∧
      ∀ bindings, checked'.value bindings = checked.value bindings) := by
  obtain ⟨names, hnames, hpure⟩ := bind_eq_ok.mp hcheck
  have hresolves := (resolves_of_checkFrom hnames).2
  refine ⟨fun bindings hbound => ?_, fun bindings name xs h => h.arity_eq hresolves,
    fun table' h => check_of_agreesOn hcheck h (by simp), fun hf htable table' h =>
    check_of_agreesOn hcheck h fun bindings name xs happlies => happlies.isFinite htable hf⟩
  cases hpure
  have hsafe := safe_value hresolves hbound
  change Safe table bindings f (Checked.value ⟨f, table, names⟩ bindings) at hsafe
  generalize Checked.value ⟨f, table, names⟩ bindings = result at hsafe ⊢
  cases result with
  | ok y => exact .inl ⟨y, rfl⟩
  | error fault =>
    cases fault with
    | domain kind position => exact .inr (.inl ⟨kind, position, rfl⟩)
    | broken message =>
      obtain ⟨name, xs, function, happlies, hfunction, hrule⟩ := hsafe
      exact .inr (.inr ⟨message, name, xs, function, rfl, happlies, hfunction, hrule⟩)
    | unknownVariable name | unknownFunction name | unbound name => exact hsafe.elim

theorem check_safe_minimum : ∃ f checked, check f .standard "min(x, 1)" = .ok checked ∧
    checked.freeVariables = ["x"] ∧
    (∀ x, (∃ y, checked.value (.single "x" x) = .ok y) ∨
      (∃ kind position, checked.value (.single "x" x) = .error (.domain kind position)) ∨
      ∃ message name xs function, checked.value (.single "x" x) = .error (.broken message) ∧
        Applies .standard (.single "x" x) f name xs ∧
        SymbolTable.standard.functionSymbol? name = some function ∧
        function.rule xs = .error (.broken message)) ∧
    ∀ table', SymbolTable.standard.AgreesOn (fun x => x.isFinite) table' → ∃ checked',
      check f table' "min(x, 1)" = .ok checked' ∧ checked'.freeVariables = ["x"] ∧
      ∀ bindings, checked'.value bindings = checked.value bindings := by
  have hcheck : check (.call "min" [.symbol "x" 4, .constant 1 7] 0) .standard "min(x, 1)"
      = .ok ⟨.call "min" [.symbol "x" 4, .constant 1 7] 0, .standard, ["x"]⟩ := rfl
  obtain ⟨hsafe, -, -, hfinite⟩ := check_safe hcheck
  have hone : (1 : Float).isFinite := by decide +kernel
  refine ⟨_, _, hcheck, rfl, fun x => hsafe _ ?_,
    hfinite ⟨trivial, trivial, hone, trivial⟩ SymbolTable.finiteConstants_standard⟩
  intro name hname
  obtain rfl := List.mem_singleton.mp hname
  simp [Bindings.single]

end Formula

end FunctionPlot
