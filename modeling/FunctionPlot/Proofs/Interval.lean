/-
# Intervals that always exist

There is a smallest interval that holds some numbers (`Interval.exists_isHull`), unless `NaN` is
among them, and only one (`Interval.IsHull.unique`).  An interval with finite ends can be widened
(`Interval.pad_eq_ok`).  There it matters that the length of an interval and the ends of the wider
one can be infinite, but that none of them is `NaN`.
-/
import FunctionPlot.Interval
import FunctionPlot.Proofs.Number.Arithmetic
import FunctionPlot.Proofs.Number.Rank

namespace FunctionPlot

namespace Number

/-- Nothing comes behind infinity. -/
lemma rank_le_infinity (v : Float) : rank v ≤ rank infinity := by
  rw [rank_le_iff, level_infinity]
  rcases (le_top : level v ≤ ⊤).lt_or_eq with hlt | heq
  · exact .inl hlt
  · refine .inr ⟨heq, fun h => ?_⟩
    rw [isNegative_of_unpack_infinity unpack_infinity] at h
    exact nomatch h

/-- Nothing comes before negative infinity. -/
lemma rank_neg_infinity_le (v : Float) : rank (-infinity) ≤ rank v := by
  rw [rank_le_iff, level_neg_infinity]
  rcases (bot_le : ⊥ ≤ level v).lt_or_eq with hlt | heq
  · exact .inl hlt
  · exact .inr ⟨heq, fun _ => (isNegative_of_unpack_infinity unpack_neg_infinity).mpr rfl⟩

end Number

namespace Interval

variable {i : Interval} {low high fraction : Float} {values : List Float}

lemma ofEnds_eq_ok (h : low ≤ high) : ofEnds low high = .ok ⟨low, high, h⟩ := by
  obtain ⟨hlow, hhigh, -⟩ := Number.le_iff.mp h
  rw [ofEnds, if_neg (by rw [Bool.or_eq_true]; exact not_or.mpr ⟨hlow, hhigh⟩), dif_pos h]

/-- An interval is the smallest one that holds some numbers: its ends are among them, and they are
all between its ends, where negative zero is less than zero. -/
structure IsHull (i : Interval) (values : List Float) : Prop where
  low_mem : i.low ∈ values
  high_mem : i.high ∈ values
  low_precedes : ∀ v ∈ values, Number.Precedes i.low v
  precedes_high : ∀ v ∈ values, Number.Precedes v i.high

namespace IsHull

variable {j : Interval} {others : List Float}

lemma not_isNaN (h : i.IsHull values) : ∀ v ∈ values, ¬ v.isNaN :=
  fun v hv => (Number.precedes_iff.mp (h.low_precedes v hv)).2.1

/-- Numbers have one smallest interval, in whatever order and however often they come. -/
lemma unique (hi : i.IsHull values) (hj : j.IsHull others) (h : ∀ v, v ∈ values ↔ v ∈ others) :
    i = j := by
  have hlow : i.low = j.low := (hi.low_precedes _ ((h _).mpr hj.low_mem)).antisymm
    (hj.low_precedes _ ((h _).mp hi.low_mem))
  have hhigh : i.high = j.high := (hj.precedes_high _ ((h _).mp hi.high_mem)).antisymm
    (hi.precedes_high _ ((h _).mpr hj.high_mem))
  cases i
  cases j
  simp_all

/-- The numbers of two lists are held by the smallest interval that holds the ends of theirs. -/
lemma append (hi : i.IsHull values) (hj : j.IsHull others) {k : Interval}
    (hk : k.IsHull [i.low, i.high, j.low, j.high]) : k.IsHull (values ++ others) := by
  have hends : ∀ v ∈ [i.low, i.high, j.low, j.high], v ∈ values ++ others := by
    simp [hi.low_mem, hi.high_mem, hj.low_mem, hj.high_mem]
  refine ⟨hends _ hk.low_mem, hends _ hk.high_mem, fun v hv => ?_, fun v hv => ?_⟩
  · rcases List.mem_append.mp hv with hv | hv
    · exact (hk.low_precedes _ (by simp)).trans (hi.low_precedes v hv)
    · exact (hk.low_precedes _ (by simp)).trans (hj.low_precedes v hv)
  · rcases List.mem_append.mp hv with hv | hv
    · exact (hi.precedes_high v hv).trans (hk.precedes_high _ (by simp))
    · exact (hj.precedes_high v hv).trans (hk.precedes_high _ (by simp))

end IsHull

/-- The least of some numbers is one of them.  It is found from infinity on, which changes nothing
since no number comes behind it. -/
lemma foldl_least_infinity (hne : values ≠ []) (hnan : ∀ v ∈ values, ¬ v.isNaN) :
    values.foldl Number.least Number.infinity ∈ values ∧
      ∀ v ∈ values, Number.Precedes (values.foldl Number.least Number.infinity) v := by
  have hinfinity := Number.not_isNaN_of_unpack_infinity Number.unpack_infinity
  obtain ⟨hmem, hleast⟩ := Number.foldl_least hinfinity hnan
  have hmem' : values.foldl Number.least Number.infinity ∈ values := by
    rcases List.mem_cons.mp hmem with heq | hmem
    · obtain ⟨v, hv⟩ := List.exists_mem_of_ne_nil values hne
      have hle := hleast v (List.mem_cons_of_mem _ hv)
      rw [heq] at hle
      have hge := Number.rank_le_infinity v
      rwa [heq, Number.eq_of_rank hinfinity (hnan v hv) (le_antisymm hle hge)]
    · exact hmem
  exact ⟨hmem', fun v hv => Number.precedes_iff.mpr
    ⟨hnan _ hmem', hnan v hv, hleast v (List.mem_cons_of_mem _ hv)⟩⟩

/-- The greatest of some numbers is one of them. -/
lemma foldl_greatest_infinity (hne : values ≠ []) (hnan : ∀ v ∈ values, ¬ v.isNaN) :
    values.foldl Number.greatest (-Number.infinity) ∈ values ∧
      ∀ v ∈ values, Number.Precedes v (values.foldl Number.greatest (-Number.infinity)) := by
  have hinfinity := Number.not_isNaN_of_unpack_infinity Number.unpack_neg_infinity
  obtain ⟨hmem, hgreatest⟩ := Number.foldl_greatest hinfinity hnan
  have hmem' : values.foldl Number.greatest (-Number.infinity) ∈ values := by
    rcases List.mem_cons.mp hmem with heq | hmem
    · obtain ⟨v, hv⟩ := List.exists_mem_of_ne_nil values hne
      have hle := hgreatest v (List.mem_cons_of_mem _ hv)
      rw [heq] at hle
      have hge := Number.rank_neg_infinity_le v
      rwa [heq, Number.eq_of_rank hinfinity (hnan v hv) (le_antisymm hge hle)]
    · exact hmem
  exact ⟨hmem', fun v hv => Number.precedes_iff.mpr
    ⟨hnan v hv, hnan _ hmem', hgreatest v (List.mem_cons_of_mem _ hv)⟩⟩

/-- There is a smallest interval that holds some numbers. -/
theorem exists_isHull (hne : values ≠ []) (hnan : ∀ v ∈ values, ¬ v.isNaN) :
    ∃ i, hull values = .ok i ∧ i.IsHull values := by
  obtain ⟨hlow, hbelow⟩ := foldl_least_infinity hne hnan
  obtain ⟨hhigh, habove⟩ := foldl_greatest_infinity hne hnan
  have hle := (habove _ hlow).le
  refine ⟨⟨_, _, hle⟩, ?_, hlow, hhigh, hbelow, habove⟩
  rw [hull, if_neg, ofEnds_eq_ok hle]
  rw [Number.lt_iff]
  exact fun h => absurd h.2.2 (Number.le_iff.mp hle).2.2.not_gt

/-- Numbers with a `NaN` among them have no interval. -/
theorem hull_of_isNaN (h : ∃ v ∈ values, v.isNaN) : hull values = .error .notANumber := by
  obtain ⟨v, hv, hnan⟩ := h
  have hlow := Number.foldl_of_isNaN (a := Number.infinity) Number.least_nan
    ⟨v, List.mem_cons_of_mem _ hv, hnan⟩
  rw [hull, if_neg, ofEnds, if_pos]
  · rw [hlow, Bool.true_or]
  · rw [Number.lt_iff]
    exact fun h => h.2.1 hlow

/-- The smallest interval that holds some finite numbers has two of them as its ends. -/
theorem hull_eq_ok (hne : values ≠ []) (hfinite : ∀ v ∈ values, v.isFinite) :
    ∃ i, hull values = .ok i ∧ i.low ∈ values ∧ i.high ∈ values ∧
      ∀ v ∈ values, i.low ≤ v ∧ v ≤ i.high := by
  obtain ⟨i, hi, hhull⟩ :=
    exists_isHull hne fun v hv => Number.not_isNaN_of_isFinite (hfinite v hv)
  exact ⟨i, hi, hhull.low_mem, hhull.high_mem,
    fun v hv => ⟨(hhull.low_precedes v hv).le, (hhull.precedes_high v hv).le⟩⟩

/-- The margin of an interval with finite ends is not below zero. -/
lemma margin_nonneg (hlow : i.low.isFinite) (hfraction : fraction.isFinite)
    (hpos : 0 < fraction) :
    ¬ (i.margin fraction).isNaN ∧ Number.level 0 ≤ Number.level (i.margin fraction) := by
  obtain ⟨y, hy⟩ := Number.isFinite_iff.mp hfraction
  have hy' : 0 < y := by
    have hlt := (Number.lt_iff.mp hpos).2.2
    rw [Number.level_zero, Number.level_of_rational? hy] at hlt
    exact_mod_cast hlt
  rw [margin]
  split
  · rename_i hsize
    obtain ⟨-, hsize', hlt⟩ := Number.lt_iff.mp hsize
    exact Number.nonneg_mul hsize' hlt.le hy hy'
  · obtain ⟨r, hr⟩ := Number.isFinite_iff.mp hlow
    have habs := Number.rational?_eq_some_iff.mp (Number.rational?_abs hr)
    have hnonneg : Number.level 0 ≤ Number.level i.low.abs := by
      rw [Number.level_zero, habs.2]
      exact_mod_cast abs_nonneg r
    have hshare := Number.nonneg_mul habs.1 hnonneg hy hy'
    simp only
    split
    · have hone := Number.rational?_eq_some_iff.mp Number.rational?_ofNat_one
      rw [hone.2, Number.level_zero]
      exact ⟨hone.1, by exact_mod_cast zero_le_one⟩
    · exact hshare

/-- An interval with finite ends can be widened. -/
theorem pad_eq_ok (hlow : i.low.isFinite) (hhigh : i.high.isFinite) (hfraction : fraction.isFinite)
    (hpos : 0 < fraction) :
    ∃ j, i.pad fraction = .ok j ∧ j.low ≤ i.low ∧ i.high ≤ j.high := by
  obtain ⟨hnan, hnonneg⟩ := margin_nonneg hlow hfraction hpos
  have hbelow := Number.sub_le hlow hnan hnonneg
  have habove := Number.le_add hhigh hnan hnonneg
  have hle := Number.le_trans (Number.le_trans hbelow i.low_le_high) habove
  exact ⟨_, ofEnds_eq_ok hle, hbelow, habove⟩

end Interval

end FunctionPlot
