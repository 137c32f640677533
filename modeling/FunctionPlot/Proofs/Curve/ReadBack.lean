/-
# Curves read back from their text

The text of a curve is a table with a line for each point and two columns in each line.  The table
can be read back (`Curve.toText_readBack`): the text of a number has no blank in it, so the lines
and the columns are found where they were put, and a number is read from its text by the lenient
reading, which knows infinity and takes what is no numeral for `NaN` (`Number.ofCount_written`).
The word for a hole is the text of no number.

The sign of a zero is all that a text does not tell.  Numbers, points and curves have the same text
iff they are the same up to this sign.
-/
import FunctionPlot.Curve
import FunctionPlot.Proofs.Formula.Lexicon
import FunctionPlot.Proofs.Text.Place

namespace FunctionPlot

/-! ### Numbers -/

namespace Number

/-- Two numbers are the same, or both are zero, whatever the signs.  `NaN` is the same as itself. -/
def SameUpToZero (v w : Float) : Prop := v = w ∨ v == 0 ∧ w == 0

variable {u v w : Float}

namespace SameUpToZero

lemma symm (h : SameUpToZero v w) : SameUpToZero w v := by
  rcases h with rfl | ⟨hv, hw⟩
  · exact .inl rfl
  · exact .inr ⟨hw, hv⟩

lemma trans (h : SameUpToZero u v) (h' : SameUpToZero v w) : SameUpToZero u w := by
  rcases h with rfl | ⟨hu, hv⟩
  · exact h'
  rcases h' with rfl | ⟨-, hw⟩
  · exact .inr ⟨hu, hv⟩
  · exact .inr ⟨hu, hw⟩

end SameUpToZero

lemma unpack_nan : nan.toModel.unpack = .notANumber := by rfl

/-- Every number is read back from its text, up to the sign of zero. -/
theorem ofCount_written (v : Float) : SameUpToZero (ofCount (written v)) v := by
  by_cases hzero : v = negativeZero
  · subst hzero
    exact .inr ⟨by decide +kernel, by decide +kernel⟩
  left
  have hfinite (h : v.isFinite) : ofCount (written v) = v :=
    Lexicon.ofCount_of_ofSigned? (Lexicon.isBlank_eq_false_of_mem_written v)
      (Lexicon.ofSigned?_written h hzero)
  change v.toModel.unpack.isFinite → _ at hfinite
  cases hv : v.toModel.unpack with
  | zero s | finite s =>
    rw [hv] at hfinite
    exact hfinite rfl
  -- the other values are written as words
  | notANumber =>
    obtain rfl : v = nan := eq_of_unpack (hv.trans unpack_nan.symm)
    decide +kernel
  | infinity s =>
    cases s with
    | positive =>
      obtain rfl : v = infinity := eq_of_unpack hv
      decide +kernel
    | negative =>
      obtain rfl : v = -infinity := eq_of_unpack hv
      decide +kernel

/-- Two numbers have the same text iff they are the same up to the sign of zero. -/
theorem written_eq_iff : written v = written w ↔ SameUpToZero v w := by
  constructor
  · intro h
    have hv := ofCount_written v
    rw [h] at hv
    exact hv.symm.trans (ofCount_written w)
  · rintro (rfl | ⟨hv, hw⟩)
    · rfl
    · rw [written_of_eq_zero hv, written_of_eq_zero hw]

/-- The word for a hole is not the text of a number: it would be read as `NaN`, which has another
text. -/
lemma written_ne_undefined (v : Float) : written v ≠ "undefined" := by
  intro h
  have hread := ofCount_written v
  have hundefined : ofCount "undefined" = nan := by decide +kernel
  rw [h, hundefined] at hread
  rcases hread with rfl | ⟨hnan, -⟩
  · exact absurd h (by decide +kernel)
  · exact absurd hnan (by decide +kernel)

end Number

/-! ### Points -/

/-- The columns of a line: the pieces between its tabulators. -/
def Text.columns (line : Text) : List Text := line.splitOn (unit '\t')

namespace SamplePoint

variable {p q : SamplePoint} {first second : Text}

/-- What stands in the second column for a point: its height, or the word for a hole. -/
def heightText (p : SamplePoint) : Text := p.y?.elim "undefined" Number.written

lemma toText_eq (p : SamplePoint) :
    p.toText = Number.written p.x ++ unit '\t' :: p.heightText := rfl

lemma heightText_of_some {y : Float} (h : p.y? = some y) : p.heightText = Number.written y := by
  rw [heightText, h, Option.elim_some]

lemma heightText_eq_undefined_iff : p.heightText = "undefined" ↔ p.y? = none := by
  constructor
  · intro h
    cases hy : p.y? with
    | none => rfl
    | some y =>
      rw [heightText_of_some hy] at h
      exact absurd h (Number.written_ne_undefined y)
  · intro h
    rw [heightText, h, Option.elim_none]

lemma isBlank_eq_false_of_mem_heightText (p : SamplePoint) :
    ∀ u ∈ p.heightText, isBlank u = false := by
  rw [heightText]
  cases p.y? with
  | none => exact Lexicon.isBlank_eq_false_of_all (by decide)
  | some y => exact Lexicon.isBlank_eq_false_of_mem_written y

/-- The line of a point is a single line. -/
lemma lineFeed_notMem_toText (p : SamplePoint) : unit '\n' ∉ p.toText := by
  have hx := Text.isLine_of_not_isBlank (Lexicon.isBlank_eq_false_of_mem_written p.x)
  have hy := Text.isLine_of_not_isBlank p.isBlank_eq_false_of_mem_heightText
  rw [toText_eq, List.mem_append, List.mem_cons]
  rintro (hmem | htab | hmem)
  · exact hx hmem
  · exact absurd htab (by decide)
  · exact hy hmem

/-- The line of a point has its two values in two columns. -/
lemma columns_toText (p : SamplePoint) :
    Text.columns p.toText = [Number.written p.x, p.heightText] := by
  have htab {t : Text} (h : ∀ u ∈ t, isBlank u = false) : unit '\t' ∉ t := by
    intro hmem
    have hblank := h _ hmem
    exact absurd hblank (by decide)
  rw [Text.columns, toText_eq, List.splitOn_append_cons_self,
    List.splitOn_eq_singleton (htab (Lexicon.isBlank_eq_false_of_mem_written p.x)),
    List.splitOn_eq_singleton (htab p.isBlank_eq_false_of_mem_heightText)]
  rfl

/-- Two columns are read as a point.  The first one is read as the value of the variable, and the
second one as the value of the function unless it is the word for a hole, which it is for holes
only. -/
structure ReadFrom (p : SamplePoint) (first second : Text) : Prop where
  x_same : Number.SameUpToZero (Number.ofCount first) p.x
  hole_iff : second = "undefined" ↔ p.y? = none
  y_same : ∀ y, p.y? = some y → Number.SameUpToZero (Number.ofCount second) y

/-- Two points are the same up to the signs of zeros; a hole is the same as holes only. -/
structure SameUpToZero (p q : SamplePoint) : Prop where
  x_same : Number.SameUpToZero p.x q.x
  y_same : Option.Rel Number.SameUpToZero p.y? q.y?

/-- A point is read from the columns of its line. -/
lemma readFrom_columns (p : SamplePoint) : p.ReadFrom (Number.written p.x) p.heightText := by
  refine ⟨Number.ofCount_written p.x, heightText_eq_undefined_iff, fun y hy => ?_⟩
  rw [heightText_of_some hy]
  exact Number.ofCount_written y

/-- Two columns are read as one point only. -/
lemma ReadFrom.unique (h : p.ReadFrom first second) (h' : q.ReadFrom first second) :
    p.SameUpToZero q := by
  refine ⟨h.x_same.symm.trans h'.x_same, ?_⟩
  have hholes : p.y? = none ↔ q.y? = none := h.hole_iff.symm.trans h'.hole_iff
  cases hp : p.y? with
  | none =>
    rw [hholes.mp hp]
    exact .none
  | some y =>
    cases hq : q.y? with
    | none => cases hp.symm.trans (hholes.mpr hq)
    | some z => exact .some ((h.y_same y hp).symm.trans (h'.y_same z hq))

lemma SameUpToZero.heightText_eq (h : p.SameUpToZero q) : p.heightText = q.heightText := by
  obtain ⟨-, hy⟩ := h
  rw [heightText, heightText]
  generalize p.y? = y, q.y? = z at hy
  cases hy with
  | none => rfl
  | some hsame => exact Number.written_eq_iff.mpr hsame

/-- Two points have the same line iff they are the same up to the signs of zeros. -/
theorem toText_eq_iff : p.toText = q.toText ↔ p.SameUpToZero q := by
  constructor
  · intro h
    have hcolumns := congrArg Text.columns h
    simp only [columns_toText, List.cons.injEq, and_true] at hcolumns
    obtain ⟨hx, hy⟩ := hcolumns
    have hq := q.readFrom_columns
    rw [← hx, ← hy] at hq
    exact p.readFrom_columns.unique hq
  · intro h
    rw [toText_eq, toText_eq, Number.written_eq_iff.mpr h.x_same, h.heightText_eq]

end SamplePoint

/-! ### Curves -/

namespace Curve

variable {points others : List SamplePoint}

/-- The lines of a curve are those of its points.  A curve without points has an empty line. -/
lemma lines_toText (h : points ≠ []) :
    Text.lines (toText points) = points.map SamplePoint.toText := by
  refine Text.lines_joined (fun t ht => ?_) (by simpa using h)
  obtain ⟨p, -, rfl⟩ := List.mem_map.mp ht
  exact p.lineFeed_notMem_toText

/-- Only a curve without points has no text. -/
lemma toText_eq_nil_iff : toText points = [] ↔ points = [] := by
  constructor
  · intro h
    by_contra hne
    have hlines : [[]] = points.map SamplePoint.toText := by rw [← lines_toText hne, h]; rfl
    have hmem := List.mem_singleton_self ([] : Text)
    rw [hlines] at hmem
    -- the line of a point has a tabulator in it
    obtain ⟨p, -, hp⟩ := List.mem_map.mp hmem
    rw [SamplePoint.toText_eq] at hp
    exact List.append_ne_nil_of_right_ne_nil _ (List.cons_ne_nil _ _) hp
  · rintro rfl
    rfl

/-- Curves with the same text have the same lines. -/
lemma map_toText_of_toText_eq (h : toText points = toText others) :
    points.map SamplePoint.toText = others.map SamplePoint.toText := by
  by_cases hpoints : points = []
  · subst hpoints
    rw [toText_eq_nil_iff.mp h.symm]
  · have hothers : others ≠ [] := fun hnil =>
      hpoints (toText_eq_nil_iff.mp (h.trans (toText_eq_nil_iff.mpr hnil)))
    rw [← lines_toText hpoints, h, lines_toText hothers]

/-- Two curves have the same text iff they have the same points, up to the signs of zeros. -/
lemma toText_eq_iff :
    toText points = toText others ↔ List.Forall₂ SamplePoint.SameUpToZero points others := by
  have hlines : toText points = toText others ↔
      points.map SamplePoint.toText = others.map SamplePoint.toText :=
    ⟨map_toText_of_toText_eq, fun h => by rw [toText, h, toText]⟩
  rw [hlines, ← List.forall₂_eq_eq_eq, List.forall₂_map_left_iff, List.forall₂_map_right_iff]
  simp only [SamplePoint.toText_eq_iff]

/-- The text of a curve can be read back.  If the curve has points, the text has a line for each of
them, in order, and in each line there are two columns, from which the point is read.  Only a curve
without points has an empty text, and two curves have the same text iff they have the same points up
to the signs of zeros. -/
theorem toText_readBack (points : List SamplePoint) :
    (points ≠ [] → List.Forall₂ (fun line p => ∃ first second,
        Text.columns line = [first, second] ∧ SamplePoint.ReadFrom p first second)
      (Text.lines (toText points)) points) ∧
    (toText points = [] ↔ points = []) ∧
    ∀ others, toText points = toText others ↔
      List.Forall₂ SamplePoint.SameUpToZero points others := by
  refine ⟨fun h => ?_, toText_eq_nil_iff, fun others => toText_eq_iff⟩
  rw [lines_toText h, List.forall₂_map_left_iff, List.forall₂_same]
  intro p _
  exact ⟨_, _, p.columns_toText, p.readFrom_columns⟩

/-- A curve with the values that are no numerals, a zero whose sign is lost, and exponents. -/
def specials : List SamplePoint :=
  [⟨-Number.infinity, some Number.nan⟩, ⟨Number.negativeZero, none⟩, ⟨1e21, some 1e-7⟩]

theorem toText_readBack_specials :
    specials ≠ [] ∧ toText specials = "-Infinity\tNaN\n0\tundefined\n1e+21\t1e-7" ∧
    List.Forall₂ (fun line p => ∃ first second,
        Text.columns line = [first, second] ∧ SamplePoint.ReadFrom p first second)
      (Text.lines "-Infinity\tNaN\n0\tundefined\n1e+21\t1e-7") specials := by
  have hne : specials ≠ [] := List.cons_ne_nil _ _
  have htext : toText specials = "-Infinity\tNaN\n0\tundefined\n1e+21\t1e-7" := by decide +kernel
  have hread := (toText_readBack specials).1 hne
  rw [htext] at hread
  exact ⟨hne, htext, hread⟩

end Curve

end FunctionPlot
