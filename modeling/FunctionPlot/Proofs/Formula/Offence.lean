/-
# What the check refuses

The check of a formula is the check of its nodes one by one, in the order of their tokens
(`Formula.checkFrom_eq_foldlM`).  A node is refused if its name has no meaning or if it is a call
with a wrong number of arguments (`Formula.Offence`).  So a formula is refused just if one of its
nodes is, and what is reported is the first of these nodes in the text.  What is recorded on the way
are the independent variables, each one where it first occurs (`Formula.IsRecord`).
-/
import FunctionPlot.Proofs.Formula.Dependence
import FunctionPlot.Proofs.Formula.InOrder

namespace FunctionPlot

section FoldlM

variable {α σ ε : Type} {step : σ → α → Except ε σ} {s s' : σ} {l : List α}

/-- If a run over a list fails, it fails at some element, and goes well before. -/
lemma exists_of_foldlM_eq_error {e : ε} (h : l.foldlM step s = .error e) :
    ∃ before a after s', l = before ++ a :: after ∧ before.foldlM step s = .ok s' ∧
      step s' a = .error e := by
  induction l generalizing s with
  | nil => cases h
  | cons a rest ih =>
    rw [List.foldlM_cons] at h
    rcases bind_eq_error.mp h with ha | ⟨t, ha, h⟩
    · exact ⟨[], a, rest, s, rfl, rfl, ha⟩
    · obtain ⟨before, b, after, s', rfl, hbefore, hb⟩ := ih h
      refine ⟨a :: before, b, after, s', rfl, ?_, hb⟩
      rw [List.foldlM_cons]
      exact bind_eq_ok.mpr ⟨t, ha, hbefore⟩

/-- If a run over a list goes well, it goes well at each element. -/
lemma exists_step_of_foldlM_eq_ok (h : l.foldlM step s = .ok s') :
    ∀ a ∈ l, ∃ t t', step t a = .ok t' := by
  induction l generalizing s with
  | nil => simp
  | cons a rest ih =>
    rw [List.foldlM_cons] at h
    obtain ⟨t, ha, h⟩ := bind_eq_ok.mp h
    exact List.forall_mem_cons.mpr ⟨⟨s, t, ha⟩, ih h⟩

end FoldlM

namespace Formula

/-- The check refuses a node for a cause, whatever its parts are. -/
inductive Offence (table : SymbolTable) : Formula → Cause → Prop
  /-- No variable has the name. -/
  | unknownVariable {name : Text} {position : Nat} (h : table.variableSymbol? name = none) :
      Offence table (symbol name position) (.unknownName name .quantity)
  /-- No function has the name. -/
  | unknownFunction {name : Text} {arguments : List Formula} {position : Nat}
      (h : table.functionSymbol? name = none) :
      Offence table (call name arguments position) (.unknownName name .function)
  /-- The function takes another number of arguments. -/
  | wrongArity {name : Text} {arguments : List Formula} {position : Nat} {function : FunctionSymbol}
      (h : table.functionSymbol? name = some function)
      (hcount : (arguments.length : Int) ≠ function.arity) :
      Offence table (call name arguments position)
        (.wrongArity name function.arity arguments.length)

/-- A variable has its first occurrence among some nodes at a position. -/
def FirstAt (nodes : List Formula) (name : Text) (position : Nat) : Prop :=
  IsLeast {p | symbol name p ∈ nodes} position

/-- What is recorded are the independent variables among some nodes, in the order of their first
occurrences. -/
structure IsRecord (table : SymbolTable) (nodes : List Formula) (seen : List Text) : Prop where
  mem_iff : ∀ name, name ∈ seen ↔ table.IsIndependent name ∧ ∃ p, symbol name p ∈ nodes
  sorted : seen.Pairwise fun a b => ∃ p q, FirstAt nodes a p ∧ FirstAt nodes b q ∧ p < q

/-- The check of a node, whatever its parts are. -/
def inspect (table : SymbolTable) (source : Text) (seen : List Text) :
    Formula → Except FormulaError (List Text)
  | symbol name position => checkSymbol table source name position seen
  | call function arguments position => do
    checkCall table source function arguments.length position
    pure seen
  | _ => .ok seen

variable {table : SymbolTable} {text source : Text} {seen seen' : List Text} {f g : Formula}
  {nodes formulas : List Formula}

/-! ### Node by node -/

lemma checkAllFrom_eq_foldlM
    (h : ∀ f ∈ formulas, ∀ seen,
      checkFrom table source f seen = f.inOrder.foldlM (inspect table source) seen) :
    checkAllFrom table source formulas seen
      = (allInOrder formulas).foldlM (inspect table source) seen := by
  induction formulas generalizing seen with
  | nil => rfl
  | cons f rest ih =>
    obtain ⟨hf, hrest⟩ := List.forall_mem_cons.mp h
    rw [checkAllFrom, allInOrder, List.foldlM_append, hf]
    exact congrArg _ (funext fun seen => ih hrest)

/-- A formula is checked node by node, in the order of the tokens. -/
theorem checkFrom_eq_foldlM (f : Formula) (seen : List Text) :
    checkFrom table source f seen = f.inOrder.foldlM (inspect table source) seen := by
  induction f generalizing seen with
  | constant value position => rfl
  | symbol name position =>
    show checkSymbol table source name position seen = _
    rw [inOrder, List.foldlM_cons]
    exact (bind_pure _).symm
  | negation operand position ih => exact ih seen
  | binary op left right position ihleft ihright =>
    rw [checkFrom, inOrder, List.foldlM_append, ihleft]
    exact congrArg _ (funext ihright)
  | call function arguments position ih =>
    -- the name and the number of arguments are looked at before the arguments
    rw [checkFrom, inOrder, List.foldlM_cons, inspect, bind_assoc]
    refine congrArg _ (funext fun _ => ?_)
    rw [pure_bind]
    exact checkAllFrom_eq_foldlM ih

/-! ### The node that is refused -/

lemma inspect_eq_error_iff {e : FormulaError} :
    inspect table source seen g = .error e ↔
      Offence table g e.cause ∧ e.position = g.position ∧ e.source = source := by
  obtain ⟨cause, place, shown⟩ := e
  constructor
  · intro h
    cases g with
    | constant | negation | binary => cases h
    | symbol name position =>
      change checkSymbol table source name position seen = _ at h
      rw [checkSymbol] at h
      split at h
      · rename_i hnone
        cases h
        exact ⟨.unknownVariable hnone, rfl, rfl⟩
      · cases h
    | call function arguments position =>
      rw [inspect] at h
      rcases bind_eq_error.mp h with h | ⟨_, -, h⟩
      · rw [checkCall] at h
        split at h
        · rename_i hnone
          cases h
          exact ⟨.unknownFunction hnone, rfl, rfl⟩
        · rename_i meaning hmeaning
          split at h
          · cases h
          · rename_i hcount
            cases h
            exact ⟨.wrongArity hmeaning hcount, rfl, rfl⟩
      · cases h
  · rintro ⟨h, hposition, hsource⟩
    change place = g.position at hposition
    change shown = source at hsource
    subst hposition hsource
    cases h with
    | unknownVariable hnone =>
      rw [inspect, checkSymbol, hnone]
      rfl
    | unknownFunction hnone =>
      rw [inspect, checkCall, hnone]
      rfl
    | wrongArity hmeaning hcount =>
      rw [inspect, checkCall, hmeaning]
      simp only [if_neg hcount]
      rfl

lemma not_offence_of_inspect (h : inspect table source seen g = .ok seen') (cause : Cause) :
    ¬ Offence table g cause := by
  intro hoffence
  have herror : inspect table source seen g = .error ⟨cause, g.position, source⟩ :=
    inspect_eq_error_iff.mpr ⟨hoffence, rfl, rfl⟩
  rw [h] at herror
  cases herror

/-- A node is refused for one cause at most. -/
lemma Offence.cause_eq {cause cause' : Cause} (h : Offence table g cause)
    (h' : Offence table g cause') : cause' = cause := by
  cases h with
  | unknownVariable hnone =>
    cases h'
    rfl
  | unknownFunction hnone =>
    cases h' with
    | unknownFunction => rfl
    | wrongArity hmeaning =>
      rw [hnone] at hmeaning
      cases hmeaning
  | wrongArity hmeaning =>
    cases h' with
    | unknownFunction hnone =>
      rw [hmeaning] at hnone
      cases hnone
    | wrongArity hmeaning' =>
      rw [hmeaning] at hmeaning'
      cases hmeaning'
      rfl

/-! ### What is recorded -/

namespace FirstAt

variable {name : Text} {p q : Nat}

lemma unique (hp : FirstAt nodes name p) (hq : FirstAt nodes name q) : p = q :=
  IsLeast.unique hp hq

/-- A node behind all others changes no first occurrence. -/
lemma concat (h : FirstAt nodes name p) (hg : ∀ g' ∈ nodes, g'.position < g.position) :
    FirstAt (nodes ++ [g]) name p := by
  refine ⟨List.mem_append_left _ h.1, fun q hq => ?_⟩
  rcases List.mem_append.mp hq with hq | hq
  · exact h.2 hq
  · obtain rfl := List.mem_singleton.mp hq
    exact (hg _ h.1).le

lemma concat_new (h : ∀ p, symbol name p ∉ nodes) :
    FirstAt (nodes ++ [symbol name q]) name q := by
  refine ⟨List.mem_append_right _ List.mem_cons_self, fun p hp => ?_⟩
  rcases List.mem_append.mp hp with hp | hp
  · exact absurd hp (h p)
  · cases List.mem_singleton.mp hp
    exact le_rfl

end FirstAt

namespace IsRecord

lemma nil : IsRecord table [] [] := ⟨by simp, .nil⟩

/-- Nothing is recorded twice. -/
lemma nodup (h : IsRecord table nodes seen) : seen.Nodup := by
  refine h.sorted.imp ?_
  rintro a b ⟨p, q, hp, hq, hlt⟩ rfl
  exact hlt.ne (hp.unique hq)

/-- What is recorded has a first occurrence. -/
lemma exists_firstAt (h : IsRecord table nodes seen) {name : Text} (hname : name ∈ seen) :
    ∃ p, FirstAt nodes name p := by
  obtain ⟨-, hoccurs⟩ := (h.mem_iff name).mp hname
  classical
  exact ⟨Nat.find hoccurs, Nat.find_spec hoccurs, fun q hq => Nat.find_min' hoccurs hq⟩

/-- The order stays when a node comes behind all others. -/
lemma sorted_concat (h : IsRecord table nodes seen) (hg : ∀ g' ∈ nodes, g'.position < g.position) :
    seen.Pairwise fun a b =>
      ∃ p q, FirstAt (nodes ++ [g]) a p ∧ FirstAt (nodes ++ [g]) b q ∧ p < q := by
  refine h.sorted.imp ?_
  rintro a b ⟨p, q, hp, hq, hlt⟩
  exact ⟨p, q, hp.concat hg, hq.concat hg, hlt⟩

/-- Nothing is to be recorded of a node that is no independent variable. -/
lemma skip (h : IsRecord table nodes seen) (hg : ∀ g' ∈ nodes, g'.position < g.position)
    (hskip : ∀ name p, symbol name p = g → ¬ table.IsIndependent name) :
    IsRecord table (nodes ++ [g]) seen := by
  refine ⟨fun name => ?_, h.sorted_concat hg⟩
  rw [h.mem_iff]
  refine and_congr_right fun hname => exists_congr fun p => ?_
  rw [List.mem_append, List.mem_singleton]
  exact (or_iff_left fun heq => hskip name p heq hname).symm

/-- An independent variable is recorded. -/
lemma record {name : Text} {q : Nat} (h : IsRecord table nodes seen)
    (hg : ∀ g' ∈ nodes, g'.position < q) (hname : table.IsIndependent name) :
    IsRecord table (nodes ++ [symbol name q]) (Formula.record seen name) := by
  constructor
  · intro other
    rw [mem_record, h.mem_iff]
    simp only [List.mem_append, List.mem_singleton, symbol.injEq, exists_or, and_or_left]
    refine or_congr_right ⟨?_, ?_⟩
    · rintro rfl
      exact ⟨hname, q, rfl, rfl⟩
    · rintro ⟨-, p, rfl, -⟩
      rfl
  · have hsorted := h.sorted_concat (g := symbol name q) hg
    rw [Formula.record]
    split
    · exact hsorted
    rename_i hnew
    -- a name that is not yet recorded occurs nowhere in front of the node
    have hfirst : FirstAt (nodes ++ [symbol name q]) name q := by
      refine .concat_new fun p hp => hnew ?_
      exact (h.mem_iff name).mpr ⟨hname, p, hp⟩
    refine List.pairwise_append.mpr ⟨hsorted, List.pairwise_singleton _ _, ?_⟩
    rintro other hother _ hmem
    obtain rfl := List.mem_singleton.mp hmem
    obtain ⟨p, hp⟩ := h.exists_firstAt hother
    exact ⟨p, q, hp.concat hg, hfirst, hg _ hp.1⟩

/-- The check of the next node keeps the record right. -/
lemma inspect (h : IsRecord table nodes seen) (hg : ∀ g' ∈ nodes, g'.position < g.position)
    (hinspect : Formula.inspect table source seen g = .ok seen') :
    IsRecord table (nodes ++ [g]) seen' := by
  cases g with
  | constant | negation | binary =>
    cases hinspect
    exact h.skip hg (by simp)
  | call function arguments position =>
    obtain ⟨-, -, hpure⟩ := bind_eq_ok.mp hinspect
    cases hpure
    exact h.skip hg (by simp)
  | symbol name position =>
    change checkSymbol table source name position seen = .ok seen' at hinspect
    rw [checkSymbol] at hinspect
    split at hinspect
    · cases hinspect
    rename_i meaning hmeaning
    cases hinspect
    cases meaning with
    | independent description => exact h.record hg ⟨description, hmeaning⟩
    | constant value description =>
      -- a name has one meaning only
      refine h.skip hg ?_
      rintro _ _ ⟨⟩ ⟨description', hmeaning'⟩
      rw [hmeaning] at hmeaning'
      cases hmeaning'

end IsRecord

/-- A run over the nodes of a formula records its independent variables.  The induction is on the
nodes from the last one back, as a node is checked with the record of those in front of it. -/
lemma isRecord_of_foldlM (hnodes : nodes.Pairwise fun g g' => g.position < g'.position)
    (h : nodes.foldlM (inspect table source) [] = .ok seen) : IsRecord table nodes seen := by
  induction nodes using List.reverseRecOn generalizing seen with
  | nil =>
    cases h
    exact .nil
  | append_singleton before g ih =>
    obtain ⟨hbefore, -, hlater⟩ := List.pairwise_append.mp hnodes
    rw [List.foldlM_append] at h
    obtain ⟨middle, hmiddle, h⟩ := bind_eq_ok.mp h
    rw [List.foldlM_cons] at h
    obtain ⟨_, hg, hpure⟩ := bind_eq_ok.mp h
    cases hpure
    exact (ih hbefore hmiddle).inspect (fun g' hg' => hlater g' hg' g List.mem_cons_self) hg

/-! ### The outcome of a check -/

lemma not_offence_of_check {checked : Checked} (h : f.check table source = .ok checked) :
    ∀ g ∈ f.inOrder, ∀ cause, ¬ Offence table g cause := by
  intro g hg cause
  obtain ⟨names, hnames, -⟩ := bind_eq_ok.mp h
  rw [checkFrom_eq_foldlM] at hnames
  obtain ⟨seen, seen', hinspect⟩ := exists_step_of_foldlM_eq_ok hnames g hg
  exact not_offence_of_inspect hinspect cause

/-- An error of the check reports the first node that is refused. -/
lemma exists_offence_of_check {e : FormulaError} (h : f.check table source = .error e) :
    ∃ before g after, f.inOrder = before ++ g :: after ∧
      (∀ g' ∈ before, ∀ cause, ¬ Offence table g' cause) ∧
      Offence table g e.cause ∧ e.position = g.position ∧ e.source = source := by
  rcases bind_eq_error.mp h with herror | ⟨_, -, hpure⟩
  · rw [checkFrom_eq_foldlM] at herror
    obtain ⟨before, g, after, seen, hsplit, hbefore, hg⟩ := exists_of_foldlM_eq_error herror
    refine ⟨before, g, after, hsplit, fun g' hg' cause => ?_, inspect_eq_error_iff.mp hg⟩
    obtain ⟨_, _, hinspect⟩ := exists_step_of_foldlM_eq_ok hbefore g' hg'
    exact not_offence_of_inspect hinspect cause
  · cases hpure

/-- The free variables of a formula that stands in a text. -/
lemma isRecord_freeVariables {checked : Checked} (htext : ofText text = .ok f)
    (h : f.check table source = .ok checked) : IsRecord table f.inOrder checked.freeVariables := by
  obtain ⟨names, hnames, hpure⟩ := bind_eq_ok.mp h
  cases hpure
  rw [checkFrom_eq_foldlM] at hnames
  exact isRecord_of_foldlM (pairwise_inOrder htext) hnames

/-- A formula passes the check against a table just if none of its nodes is refused.  Otherwise the
error reports, with its only cause, the first node in the text that is refused: all others that are
refused stand behind it.  After a check that went well the free variables are the independent
variables that occur in the formula, each one once and in the order of their first occurrences. -/
theorem check_leftmost (h : ofText text = .ok f) (table : SymbolTable) (source : Text) :
    ((∃ checked, f.check table source = .ok checked) ↔
      ∀ g ∈ f.inOrder, ∀ cause, ¬ Offence table g cause) ∧
    (∀ e, f.check table source = .error e → ∃ g ∈ f.inOrder,
      (∀ cause, Offence table g cause ↔ cause = e.cause) ∧
      e.position = g.position ∧ e.source = source ∧
      ∀ g' ∈ f.inOrder, ∀ cause, Offence table g' cause → g' = g ∨ g.position < g'.position) ∧
    ∀ checked, f.check table source = .ok checked →
      checked.freeVariables.Nodup ∧
      (∀ name, name ∈ checked.freeVariables ↔
        table.IsIndependent name ∧ ∃ p, symbol name p ∈ f.inOrder) ∧
      checked.freeVariables.Pairwise fun a b =>
        ∃ p q, FirstAt f.inOrder a p ∧ FirstAt f.inOrder b q ∧ p < q := by
  refine ⟨⟨?_, fun hnone => ?_⟩, fun e herror => ?_, fun checked hcheck => ?_⟩
  · rintro ⟨checked, hcheck⟩
    exact not_offence_of_check hcheck
  · cases hcheck : f.check table source with
    | ok checked => exact ⟨checked, rfl⟩
    | error e =>
      exfalso
      obtain ⟨before, g, after, hsplit, -, hoffence, -⟩ := exists_offence_of_check hcheck
      exact hnone g (hsplit ▸ List.mem_append_right _ List.mem_cons_self) e.cause hoffence
  · have hsorted := pairwise_inOrder h
    obtain ⟨before, g, after, hsplit, hbefore, hoffence, hposition, hsource⟩ :=
      exists_offence_of_check herror
    rw [hsplit] at hsorted ⊢
    obtain ⟨-, htail, -⟩ := List.pairwise_append.mp hsorted
    refine ⟨g, List.mem_append_right _ List.mem_cons_self, fun cause => ⟨hoffence.cause_eq, ?_⟩,
      hposition, hsource, fun g' hg' cause hcause => ?_⟩
    · rintro rfl
      exact hoffence
    · rcases List.mem_append.mp hg' with hg' | hg'
      · exact absurd hcause (hbefore g' hg' cause)
      rcases List.mem_cons.mp hg' with rfl | hg'
      · exact .inl rfl
      · exact .inr ((List.pairwise_cons.mp htail).1 g' hg')
  · have hrecord := isRecord_freeVariables h hcheck
    exact ⟨hrecord.nodup, hrecord.mem_iff, hrecord.sorted⟩

/-- Without a meaning for `y` its occurrence is reported, not the call with two arguments behind it;
with one, and a function of two arguments, the free variables come in the order of the text. -/
theorem check_leftmost_difference : ∃ f, ofText "y - sin(x, z*y)" = .ok f ∧
    (∃ e, f.check .standard "y - sin(x, z*y)" = .error e ∧
      e.cause = .unknownName "y" .quantity ∧ e.position = 0 ∧
      ∀ g' ∈ f.inOrder, ∀ cause, Offence .standard g' cause → g' = symbol "y" 0 ∨ 0 < g'.position) ∧
    ∃ checked, f.check (.ofLists [("sin", ⟨2, [], .ofUnary Float.sin⟩)]
        [("x", .independent []), ("y", .independent []), ("z", .independent [])])
        "y - sin(x, z*y)" = .ok checked ∧
      checked.freeVariables = ["y", "x", "z"] ∧
      checked.freeVariables.Pairwise fun a b =>
        ∃ p q, FirstAt f.inOrder a p ∧ FirstAt f.inOrder b q ∧ p < q := by
  have hparse : ofText "y - sin(x, z*y)" = .ok (.binary .sub (.symbol "y" 0)
      (.call "sin" [.symbol "x" 8, .binary .mul (.symbol "z" 11) (.symbol "y" 13) 12] 4) 2) := by
    cbv
  refine ⟨_, hparse, ?_, ?_⟩
  · obtain ⟨-, hfirst, -⟩ := check_leftmost hparse .standard "y - sin(x, z*y)"
    obtain ⟨g, hg, -, hposition, -, hall⟩ := hfirst _ rfl
    have hy : Offence .standard (symbol "y" 0) (.unknownName "y" .quantity) :=
      .unknownVariable rfl
    refine ⟨_, rfl, rfl, rfl, ?_⟩
    rcases hall (symbol "y" 0) List.mem_cons_self _ hy with rfl | hlt
    · exact hall
    · rw [← hposition] at hlt
      exact absurd hlt (Nat.lt_irrefl 0)
  · obtain ⟨-, -, hfree⟩ := check_leftmost hparse (.ofLists [("sin", ⟨2, [], .ofUnary Float.sin⟩)]
      [("x", .independent []), ("y", .independent []), ("z", .independent [])]) "y - sin(x, z*y)"
    exact ⟨_, rfl, rfl, (hfree _ rfl).2.2⟩

end Formula

end FunctionPlot
