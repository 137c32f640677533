/-
# Formulas as they are read

Two formulas that differ in their positions only have the same text.  `Formula.stripped` takes the
positions away.

A text has no numbers with a minus sign, so that a formula with such numbers is read as another one,
its `Formula.norm`: a number below zero becomes a negation, and negative zero becomes zero.
-/
import FunctionPlot.Formula.Printer
import FunctionPlot.Formula.Token
import FunctionPlot.Proofs.Number.RoundTrip

namespace FunctionPlot

/-- A text that is an identifier. -/
def IsIdentifier (name : Text) : Prop :=
  ∃ first rest, name = first :: rest ∧ isIdentifierStart first ∧ ∀ u ∈ rest, isIdentifierPart u

namespace Formula

mutual

/-- A formula without its positions. -/
def stripped : Formula → Formula
  | constant value _ => constant value 0
  | symbol name _ => symbol name 0
  | negation operand _ => negation operand.stripped 0
  | binary op left right _ => binary op left.stripped right.stripped 0
  | call function arguments _ => call function (strippedAll arguments) 0

/-- Some formulas without their positions. -/
def strippedAll : List Formula → List Formula
  | [] => []
  | f :: rest => f.stripped :: strippedAll rest

end

mutual

/-- A formula as its text is read. -/
def norm : Formula → Formula
  | constant value position =>
    if value < 0 then negation (constant (-value) position) position
    else if value == 0 then constant 0 position
    else constant value position
  | symbol name position => symbol name position
  | negation operand position => negation operand.norm position
  | binary op left right position => binary op left.norm right.norm position
  | call function arguments position => call function (norms arguments) position

/-- Some formulas as their texts are read. -/
def norms : List Formula → List Formula
  | [] => []
  | f :: rest => f.norm :: norms rest

end

mutual

/-- A formula over numbers and names of some kinds. -/
def Over (number : Float → Prop) (name : Text → Prop) : Formula → Prop
  | constant value _ => number value
  | symbol quantity _ => name quantity
  | negation operand _ => operand.Over number name
  | binary _ left right _ => left.Over number name ∧ right.Over number name
  | call function arguments _ => name function ∧ AllOver number name arguments

/-- Formulas over numbers and names of some kinds. -/
def AllOver (number : Float → Prop) (name : Text → Prop) : List Formula → Prop
  | [] => True
  | f :: rest => f.Over number name ∧ AllOver number name rest

end

/-- A formula of finite numbers and identifiers. -/
def Printable (f : Formula) : Prop := f.Over (fun value => value.isFinite) IsIdentifier

/-- A formula of finite numbers without a minus sign and of identifiers, as the texts of formulas
have them. -/
def Readable (f : Formula) : Prop :=
  f.Over (fun value => value.isFinite ∧ ¬ Number.isNegative value) IsIdentifier

@[simp] lemma strippedAll_eq_map (formulas : List Formula) :
    strippedAll formulas = formulas.map stripped := by
  induction formulas with
  | nil => rfl
  | cons f rest ih => rw [strippedAll, List.map_cons, ih]

@[simp] lemma norms_eq_map (formulas : List Formula) : norms formulas = formulas.map norm := by
  induction formulas with
  | nil => rfl
  | cons f rest ih => rw [norms, List.map_cons, ih]

lemma allOver_iff {number : Float → Prop} {name : Text → Prop} (formulas : List Formula) :
    AllOver number name formulas ↔ ∀ f ∈ formulas, f.Over number name := by
  induction formulas with
  | nil => simp [AllOver]
  | cons f rest ih => rw [AllOver, ih, List.forall_mem_cons]

lemma greatestHeight_map {g : Formula → Formula} {formulas : List Formula}
    (h : ∀ f ∈ formulas, (g f).height = f.height) :
    greatestHeight (formulas.map g) = greatestHeight formulas := by
  induction formulas with
  | nil => rfl
  | cons f rest ih =>
    obtain ⟨hf, hrest⟩ := List.forall_mem_cons.mp h
    rw [List.map_cons, greatestHeight, greatestHeight, hf, ih hrest]

lemma height_stripped (f : Formula) : f.stripped.height = f.height := by
  induction f with
  | constant value position => rfl
  | symbol name position => rfl
  | negation operand position ih => rw [stripped, height, height, ih]
  | binary op left right position ihleft ihright =>
    rw [stripped, height, height, ihleft, ihright]
  | call function arguments position ih =>
    rw [stripped, height, height, strippedAll_eq_map, greatestHeight_map ih]

lemma strength_stripped (f : Formula) : f.stripped.strength = f.strength := by
  cases f <;> rfl

lemma toText_stripped (f : Formula) : f.stripped.toText = f.toText := by
  induction f with
  | constant value position => rfl
  | symbol name position => rfl
  | negation operand position ih => rw [stripped, toText, toText, ih, strength_stripped]
  | binary op left right position ihleft ihright =>
    rw [stripped, toText, toText, ihleft, ihright, strength_stripped, strength_stripped]
  | call function arguments position ih =>
    have hmap : (arguments.map stripped).map toText = arguments.map toText := by
      rw [List.map_map]
      exact List.map_congr_left ih
    rw [stripped, toText, toText, strippedAll_eq_map, toTexts_eq_map, toTexts_eq_map, hmap]

/-- Formulas with the same text up to their positions have the same height. -/
lemma height_eq_of_stripped {f g : Formula} (h : f.stripped = g.stripped) :
    f.height = g.height := by
  rw [← f.height_stripped, h, g.height_stripped]

lemma toText_eq_of_stripped {f g : Formula} (h : f.stripped = g.stripped) :
    f.toText = g.toText := by
  rw [← f.toText_stripped, h, g.toText_stripped]

/-- A formula as texts have them is read as it is. -/
lemma norm_eq_self {f : Formula} (h : f.Readable) : f.norm = f := by
  induction f with
  | constant value position =>
    obtain ⟨hfinite, hsign⟩ : value.isFinite ∧ ¬ Number.isNegative value := h
    rw [norm, if_neg (Number.not_lt_zero_of_not_isNegative hsign)]
    split
    · rename_i hzero
      rw [Number.eq_of_eq_zero hzero hsign]
    · rfl
  | symbol name position => rfl
  | negation operand position ih => rw [norm, ih h]
  | binary op left right position ihleft ihright => rw [norm, ihleft h.1, ihright h.2]
  | call function arguments position ih =>
    have harguments := (allOver_iff arguments).mp h.2
    have hmap : arguments.map norm = arguments.map id :=
      List.map_congr_left fun a ha => ih a ha (harguments a ha)
    rw [norm, norms_eq_map, hmap, List.map_id]

lemma Over.imp {number number' : Float → Prop} {name name' : Text → Prop} {f : Formula}
    (h : f.Over number name) (hnumber : ∀ value, number value → number' value)
    (hname : ∀ t, name t → name' t) : f.Over number' name' := by
  induction f with
  | constant value position => exact hnumber value h
  | symbol quantity position => exact hname quantity h
  | negation operand position ih => exact ih h
  | binary op left right position ihleft ihright => exact ⟨ihleft h.1, ihright h.2⟩
  | call function arguments position ih =>
    have harguments := (allOver_iff arguments).mp h.2
    exact ⟨hname function h.1,
      (allOver_iff arguments).mpr fun a ha => ih a ha (harguments a ha)⟩

lemma Readable.printable {f : Formula} (h : f.Readable) : f.Printable :=
  h.imp (fun _ hvalue => hvalue.1) fun _ => id

end Formula

end FunctionPlot
