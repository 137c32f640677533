/-
# The bounds of a curve

The bounds of a curve are the least and the greatest of its heights, where negative zero is less
than zero (`Curve.bounds_hull`).  They depend on nothing but which heights there are
(`Curve.bounds_congr`): not on their order, not on the holes, and not on how the curve is cut into
segments.
-/
import FunctionPlot.Curve
import FunctionPlot.Proofs.Interval

namespace FunctionPlot

/-- A point of a curve as one that might have been a hole. -/
def DefinedPoint.toSamplePoint (p : DefinedPoint) : SamplePoint := ⟨p.x, some p.y⟩

namespace Curve

/-- The heights of the defined points, in order. -/
def heights (points : List SamplePoint) : List Float := points.filterMap (·.y?)

variable {points others : List SamplePoint} {i : Interval}

lemma mem_heights {y : Float} : y ∈ heights points ↔ ∃ p ∈ points, p.y? = some y :=
  List.mem_filterMap

/-- A curve without heights is all holes. -/
lemma heights_eq_nil_iff : heights points = [] ↔ ∀ p ∈ points, p.isDefined = false := by
  simp [heights, List.filterMap_eq_nil_iff, SamplePoint.isDefined]

@[simp] lemma heights_append (points others : List SamplePoint) :
    heights (points ++ others) = heights points ++ heights others :=
  List.filterMap_append

lemma bounds_of_nil (h : heights points = []) : bounds points = .ok none := by
  rw [bounds]
  split
  · rfl
  · rename_i hne
    exact absurd h hne

lemma bounds_of_ne_nil (h : heights points ≠ []) :
    bounds points = (Interval.hull (heights points)).map some := by
  rw [bounds]
  split
  · rename_i hnil
    exact absurd hnil h
  · rfl

/-! ### What the bounds are -/

/-- What the bounds of a curve come to. -/
inductive Bounds (points : List SamplePoint) : Except IntervalError (Option Interval) → Prop
  /-- The curve is all holes. -/
  | holes (h : heights points = []) : Bounds points (.ok none)
  /-- A height is no number. -/
  | notANumber (h : ∃ y ∈ heights points, y.isNaN) : Bounds points (.error .notANumber)
  /-- There are bounds. -/
  | hull (i : Interval) (h : i.IsHull (heights points)) : Bounds points (.ok (some i))

lemma bounds_bounds (points : List SamplePoint) : Bounds points (bounds points) := by
  by_cases hne : heights points = []
  · rw [bounds_of_nil hne]
    exact .holes hne
  rw [bounds_of_ne_nil hne]
  by_cases hnan : ∃ y ∈ heights points, y.isNaN
  · rw [Interval.hull_of_isNaN hnan]
    exact .notANumber hnan
  · obtain ⟨i, hi, hhull⟩ := Interval.exists_isHull hne fun y hy h => hnan ⟨y, hy, h⟩
    rw [hi]
    exact .hull i hhull

/-- No two of the three cases are met by the same heights, in whatever order and however often they
come. -/
lemma Bounds.unique {r r' : Except IntervalError (Option Interval)} (h : Bounds points r)
    (h' : Bounds others r') (heq : ∀ y, y ∈ heights points ↔ y ∈ heights others) : r = r' := by
  have hnil : heights points = [] ↔ heights others = [] := by
    simp only [List.eq_nil_iff_forall_not_mem, heq]
  cases h with
  | holes hpoints =>
    cases h' with
    | holes => rfl
    | notANumber hothers =>
      obtain ⟨y, hy, -⟩ := hothers
      simp [hnil.mp hpoints] at hy
    | hull j hothers => simpa [hnil.mp hpoints] using hothers.low_mem
  | notANumber hpoints =>
    obtain ⟨y, hy, hnan⟩ := hpoints
    cases h' with
    | holes hothers => simp [hnil.mpr hothers] at hy
    | notANumber => rfl
    | hull j hothers => exact absurd hnan (hothers.not_isNaN y ((heq y).mp hy))
  | hull i hpoints =>
    cases h' with
    | holes hothers => simpa [hnil.mpr hothers] using hpoints.low_mem
    | notANumber hothers =>
      obtain ⟨y, hy, hnan⟩ := hothers
      exact absurd hnan (hpoints.not_isNaN y ((heq y).mpr hy))
    | hull j hothers => rw [hpoints.unique hothers heq]

/-- The bounds depend on nothing but which heights there are. -/
theorem bounds_congr (h : ∀ y, y ∈ heights points ↔ y ∈ heights others) :
    bounds points = bounds others :=
  (bounds_bounds points).unique (bounds_bounds others) h

lemma bounds_eq_some_iff : bounds points = .ok (some i) ↔ i.IsHull (heights points) := by
  constructor
  · intro h
    have hbounds := bounds_bounds points
    rw [h] at hbounds
    cases hbounds with
    | hull i hhull => exact hhull
  · exact fun h => (bounds_bounds points).unique (.hull i h) fun _ => Iff.rfl

lemma bounds_eq_none_iff : bounds points = .ok none ↔ ∀ p ∈ points, p.isDefined = false := by
  rw [← heights_eq_nil_iff]
  refine ⟨fun h => ?_, bounds_of_nil⟩
  have hbounds := bounds_bounds points
  rw [h] at hbounds
  cases hbounds with
  | holes hnil => exact hnil

/-- There is one error only. -/
lemma bounds_eq_error_iff {e : IntervalError} : bounds points = .error e ↔
    e = .notANumber ∧ ∃ p ∈ points, ∃ y, p.y? = some y ∧ y.isNaN := by
  have hbounds := bounds_bounds points
  constructor
  · intro h
    rw [h] at hbounds
    cases hbounds with
    | notANumber hnan =>
      obtain ⟨y, hy, hnan⟩ := hnan
      obtain ⟨p, hp, hpy⟩ := mem_heights.mp hy
      exact ⟨rfl, p, hp, y, hpy, hnan⟩
  · rintro ⟨rfl, p, hp, y, hpy, hnan⟩
    exact hbounds.unique (.notANumber ⟨y, mem_heights.mpr ⟨p, hp, hpy⟩, hnan⟩) fun _ => Iff.rfl

/-- A curve that is not all holes has bounds if its heights are numbers. -/
lemma exists_bounds (hdefined : ∃ p ∈ points, p.isDefined)
    (hnan : ∀ p ∈ points, ∀ y, p.y? = some y → ¬ y.isNaN) :
    ∃ i, bounds points = .ok (some i) ∧ i.IsHull (heights points) := by
  obtain ⟨p, hp, hpdefined⟩ := hdefined
  have hne : heights points ≠ [] := fun hnil => by
    simp [heights_eq_nil_iff.mp hnil p hp] at hpdefined
  obtain ⟨i, -, hhull⟩ := Interval.exists_isHull hne fun y hy => by
    obtain ⟨q, hq, hqy⟩ := mem_heights.mp hy
    exact hnan q hq y hqy
  exact ⟨i, bounds_eq_some_iff.mpr hhull, hhull⟩

/-- The bounds of two curves together come from the ends of theirs. -/
lemma bounds_append {j : Interval} (hi : bounds points = .ok (some i))
    (hj : bounds others = .ok (some j)) :
    bounds (points ++ others) = (Interval.hull [i.low, i.high, j.low, j.high]).map some := by
  rw [bounds_eq_some_iff] at hi hj
  have hends : ∀ v ∈ [i.low, i.high, j.low, j.high], ¬ v.isNaN := by
    simp only [List.forall_mem_cons, List.not_mem_nil, IsEmpty.forall_iff, implies_true, and_true]
    exact ⟨hi.not_isNaN _ hi.low_mem, hi.not_isNaN _ hi.high_mem, hj.not_isNaN _ hj.low_mem,
      hj.not_isNaN _ hj.high_mem⟩
  obtain ⟨k, hk, hhull⟩ := Interval.exists_isHull (List.cons_ne_nil _ _) hends
  rw [hk]
  exact bounds_eq_some_iff.mpr (heights_append points others ▸ hi.append hj hhull)

/-! ### Segments -/

lemma flatten_splitOnP_isNone {α : Type} (l : List (Option α)) :
    ((l.splitOnP Option.isNone).map List.reduceOption).flatten = l.reduceOption := by
  induction l with
  | nil => rfl
  | cons a l ih =>
    obtain ⟨piece, pieces, hpieces⟩ := List.exists_cons_of_ne_nil
      (List.splitOnP_ne_nil Option.isNone l)
    rw [hpieces] at ih
    rw [List.splitOnP_cons_eq_if_modifyHead, hpieces]
    cases a <;> simp [← ih]

/-- The segments of a curve are its defined points, in order. -/
lemma flatten_segments (points : List SamplePoint) :
    (segments points).flatten = points.filterMap SamplePoint.defined? := by
  rw [segments, List.flatten_filter_not_isEmpty, flatten_splitOnP_isNone, List.reduceOption,
    List.filterMap_map]
  rfl

lemma heights_segments (points : List SamplePoint) :
    heights ((segments points).flatten.map DefinedPoint.toSamplePoint) = heights points := by
  rw [flatten_segments, heights, heights, List.filterMap_map, List.filterMap_filterMap]
  refine List.filterMap_congr fun p _ => ?_
  cases hp : p.y? <;> simp [SamplePoint.defined?, DefinedPoint.toSamplePoint, hp]

/-- The bounds of a curve are those of its heights.  There are none if all its points are holes, and
there is no interval if one of the heights is no number; otherwise the ends of the interval are the
least and the greatest height, where negative zero is less than zero.  Neither the order of the
points nor their segments matter, and the bounds of two curves together are the smallest interval
that holds the ends of theirs. -/
theorem bounds_hull (points : List SamplePoint) :
    (bounds points = .ok none ↔ ∀ p ∈ points, p.isDefined = false) ∧
    ((∃ e, bounds points = .error e) ↔ ∃ p ∈ points, ∃ y, p.y? = some y ∧ y.isNaN) ∧
    (∀ e, bounds points = .error e → e = .notANumber) ∧
    ((∃ p ∈ points, p.isDefined) → (∀ p ∈ points, ∀ y, p.y? = some y → ¬ y.isNaN) →
      ∃ i, bounds points = .ok (some i) ∧ i.IsHull (heights points)) ∧
    (∀ others, points.Perm others → bounds others = bounds points) ∧
    bounds ((segments points).flatten.map DefinedPoint.toSamplePoint) = bounds points ∧
    ∀ others i j, bounds points = .ok (some i) → bounds others = .ok (some j) →
      bounds (points ++ others)
        = (Interval.hull [i.low, i.high, j.low, j.high]).map some := by
  refine ⟨bounds_eq_none_iff, ⟨?_, ?_⟩, fun e he => (bounds_eq_error_iff.mp he).1, exists_bounds,
    fun others hperm => ?_, ?_, fun others i j => bounds_append⟩
  · rintro ⟨e, he⟩
    exact (bounds_eq_error_iff.mp he).2
  · intro hnan
    exact ⟨_, bounds_eq_error_iff.mpr ⟨rfl, hnan⟩⟩
  · exact bounds_congr fun y => ((hperm.filterMap _).mem_iff).symm
  · exact bounds_congr fun y => by rw [heights_segments]

/-- Negative zero is below zero, also at the end of the points. -/
example : bounds [⟨0, some 0⟩, ⟨1, none⟩, ⟨2, some Number.negativeZero⟩]
    = .ok (some ⟨Number.negativeZero, 0, by decide +kernel⟩) := by decide +kernel

end Curve

end FunctionPlot
