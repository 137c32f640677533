/-
# Intervals that do not collapse

An interval with finite ends can be widened, and the wider one holds it (`Interval.pad_widens`).  It
does not collapse, unless the interval is a single point at which the margin is lost
(`Interval.LosesMargin`): a share of the magnitude of the point that is not zero, or else one would
be taken for it, but too small to change the point on either side.

A fraction from `2 ^ (-52)` on is never lost (`Interval.LosesMargin.fraction_lt`).  One up to
`2 ^ (-56)` is lost at every point whose share is not rounded to zero
(`Interval.losesMargin_of_le`).
-/
import FunctionPlot.Proofs.Interval
import FunctionPlot.Proofs.Number.Absorption

namespace FunctionPlot

namespace Interval

open Number

variable {i j : Interval} {fraction : Float} {x f g : Rat}

/-- A share of the magnitude of a point is lost there: it is not rounded to zero, but the point less
the share and the point with the share added are both rounded to the point. -/
structure IsLost (x f g : Rat) : Prop where
  share : IsRounded (|x| * f) g
  ne_zero : g ≠ 0
  below : IsRounded (x - g) x
  above : IsRounded (x + g) x

/-- An interval is a single point at which its margin is lost. -/
def LosesMargin (i : Interval) (fraction : Float) : Prop :=
  ∃ x f g, rational? i.low = some x ∧ rational? i.high = some x ∧ rational? fraction = some f ∧
    IsLost x f g

namespace IsLost

/-- A lost share is about one part in `2 ^ 53` of the point, or less. -/
lemma abs_le (h : IsLost x f g) : |g| ≤ (|x| + |g|) / 2 ^ 53 :=
  h.above.abs_le_of_absorbed (h.share.smallest_le h.ne_zero)

/-- Only small fractions are lost. -/
theorem fraction_lt (h : IsLost x f g) : f < 2 ^ (-52 : Int) := by
  by_contra hge
  have hshare : |x| * 2 ^ (-52 : Int) ≤ 3 / 2 * |g| := by
    calc |x| * 2 ^ (-52 : Int) ≤ |x| * f :=
          mul_le_mul_of_nonneg_left (not_lt.mp hge) (abs_nonneg x)
      _ ≤ |(|x| * f)| := le_abs_self _
      _ ≤ 3 / 2 * |g| := h.share.abs_le_of_ne_zero h.ne_zero
  have hlost := h.abs_le
  have hpos := abs_pos.mpr h.ne_zero
  rw [zpow_neg] at hshare
  norm_num at hshare hlost
  linarith

end IsLost

/-- The margin of a single point. -/
inductive IsPointMargin (x f : Rat) : Float → Prop
  /-- One, if the share of its magnitude is rounded to zero. -/
  | one (rounded : IsRounded (|x| * f) 0) : IsPointMargin x f 1
  /-- The share of its magnitude. -/
  | share {g : Rat} {v : Float} (rounded : IsRounded (|x| * f) g) (ne_zero : g ≠ 0)
      (rational : rational? v = some g) : IsPointMargin x f v
  /-- Infinity, if that share is too great. -/
  | infinity {g : Rat} {v : Float} (rounded : IsRounded (|x| * f) g) (great : 2 ^ 1024 ≤ |g|)
      (infinite : v.toModel.unpack = .infinity .positive) : IsPointMargin x f v

lemma isPointMargin (hlow : rational? i.low = some x) (hhigh : rational? i.high = some x)
    (hf : rational? fraction = some f) (hpos : 0 < f) : IsPointMargin x f (i.margin fraction) := by
  have hsize : ¬ 0 < i.size := by
    have hdifference := (correct_sub hhigh hlow).roundsTo
    rw [sub_self] at hdifference
    rw [size, lt_iff_of_rational? rational?_zero (hdifference.rational?_eq (.inl rfl))]
    exact lt_irrefl 0
  obtain ⟨hnan, g, hg, hlevel⟩ := correct_mul (rational?_abs hlow) hf
  have hnonneg := hg.nonneg (mul_nonneg (abs_nonneg x) hpos.le)
  rw [margin, if_neg hsize]
  simp only [Bool.or_eq_true, beq_zero_iff hnan, hnan, Bool.false_eq_true, or_false, hlevel]
  by_cases hgreat : 2 ^ 1024 ≤ g
  · have htop : boundedLevel g = ⊤ := if_pos hgreat
    have hne : (⊤ : WithBot (WithTop Rat)) ≠ ((0 : Rat) : WithTop Rat) := by
      intro h
      cases h
    rw [htop, if_neg hne]
    refine .infinity hg (by rwa [abs_of_nonneg hnonneg]) ?_
    refine (eq_infinity_or_finite hnan (by rw [hlevel, htop]; exact le_top)).resolve_right ?_
    rintro ⟨r, -, hr⟩
    rw [level_of_rational? hr, htop] at hlevel
    cases hlevel
  · have hfits : |g| < 2 ^ 1024 := by rwa [abs_of_nonneg hnonneg, ← not_le]
    rw [boundedLevel_of_abs_lt hfits] at hlevel ⊢
    split
    · rename_i hzero
      obtain rfl : g = 0 := by exact_mod_cast hzero
      exact .one hg
    · rename_i hne
      refine .share hg (fun hzero => hne ?_) (rational?_eq_some_iff.mpr ⟨hnan, hlevel⟩)
      rw [hzero]

/-- A point is near to zero if its share is rounded to zero. -/
lemma abs_le_half (h : IsRounded (|x| * f) 0) (hf : rational? fraction = some f) (hpos : 0 < f) :
    |x| ≤ 1 / 2 := by
  have hsmall := h.abs_le_of_zero
  have hsmallest := (isRounded_self (representable_of_rational? hf)).smallest_le hpos.ne'
  have hhalf : (2 : Rat) ^ (-1075 : Int) = 1 / 2 * 2 ^ (-1074 : Int) := by
    rw [one_div_mul_eq_div, ← Magnitude.half_eq]
    norm_num
  have hu := Magnitude.two_zpow_pos (-1074)
  rw [abs_of_nonneg (mul_nonneg (abs_nonneg x) hpos.le), hhalf] at hsmall
  rw [abs_of_pos hpos] at hsmallest
  refine le_of_mul_le_mul_right ?_ hu
  exact (mul_le_mul_of_nonneg_left hsmallest (abs_nonneg x)).trans hsmall

/-- A point is widened unless its share is lost. -/
lemma sub_margin_lt_iff_of_point (hlow : rational? i.low = some x)
    (hhigh : rational? i.high = some x) (hf : rational? fraction = some f) (hpos : 0 < f) :
    i.low - i.margin fraction < i.high + i.margin fraction ↔ ¬ ∃ g, IsLost x f g := by
  generalize hv : i.margin fraction = v
  cases hv ▸ isPointMargin hlow hhigh hf hpos with
  | one hzero =>
    refine iff_of_true ?_ ?_
    · rw [sub_lt_add_iff hlow hhigh rational?_ofNat_one zero_le_one]
      rintro ⟨-, habove⟩
      have hone : (1 : Rat) ≤ (|x| + 1) / 2 ^ 53 := by
        simpa using habove.abs_le_of_absorbed
          (by rw [abs_one]; exact zpow_le_one_of_nonpos₀ (by norm_num) (by norm_num))
      have hhalf := abs_le_half hzero hf hpos
      norm_num at hone
      linarith
    · rintro ⟨g, hlost⟩
      exact hlost.ne_zero (hlost.share.unique hzero)
  | share hg hne hrational =>
    rename_i g
    rw [sub_lt_add_iff hlow hhigh hrational (hg.nonneg (mul_nonneg (abs_nonneg x) hpos.le)),
      not_iff_not]
    constructor
    · rintro ⟨hbelow, habove⟩
      exact ⟨g, hg, hne, hbelow, habove⟩
    · rintro ⟨g', hlost⟩
      obtain rfl := hg.unique hlost.share
      exact ⟨hlost.below, hlost.above⟩
  | infinity hg hgreat hinfinite =>
    rename_i g
    refine iff_of_true (sub_lt_add_infinity hlow hhigh hinfinite) ?_
    rintro ⟨g', hlost⟩
    obtain rfl := hg.unique hlost.share
    have hle := hlost.abs_le
    have hlt := abs_lt_of_representable (representable_of_rational? hlow)
    -- otherwise `linarith` computes the power
    generalize (2 : Rat) ^ 1024 = m at hgreat hlt
    have hnonneg := abs_nonneg g
    rw [le_div_iff₀ (by norm_num)] at hle
    linarith

/-- A margin widens an interval, unless the interval is a point where the margin is lost. -/
theorem sub_margin_lt_iff (hlow : i.low.isFinite) (hhigh : i.high.isFinite)
    (hfraction : fraction.isFinite) (hpos : 0 < fraction) :
    i.low - i.margin fraction < i.high + i.margin fraction ↔ ¬ i.LosesMargin fraction := by
  obtain ⟨x, hx⟩ := isFinite_iff.mp hlow
  obtain ⟨y, hy⟩ := isFinite_iff.mp hhigh
  obtain ⟨f, hf⟩ := isFinite_iff.mp hfraction
  rcases ((le_iff_of_rational? hx hy).mp i.low_le_high).lt_or_eq with hlt | rfl
  · obtain ⟨hnan, hnonneg⟩ := margin_nonneg hlow hfraction hpos
    have hbelow := le_iff.mp (sub_le hlow hnan hnonneg)
    have habove := le_iff.mp (le_add hhigh hnan hnonneg)
    have hends := lt_iff.mp ((lt_iff_of_rational? hx hy).mpr hlt)
    refine iff_of_true (lt_iff.mpr ⟨hbelow.1, habove.2.1,
      hbelow.2.2.trans_lt (hends.2.2.trans_le habove.2.2)⟩) ?_
    rintro ⟨x', f', g, hx', hy', -⟩
    rw [hx, Option.some_inj] at hx'
    rw [hy, Option.some_inj, ← hx'] at hy'
    exact hlt.ne' hy'
  · have hf' := (lt_iff_of_rational? rational?_zero hf).mp hpos
    rw [sub_margin_lt_iff_of_point hx hy hf hf', not_iff_not]
    constructor
    · rintro ⟨g, hlost⟩
      exact ⟨x, f, g, hx, hy, hf, hlost⟩
    · rintro ⟨x', f', g, hx', -, hf'', hlost⟩
      obtain rfl := Option.some.inj (hx.symm.trans hx')
      obtain rfl := Option.some.inj (hf.symm.trans hf'')
      exact ⟨g, hlost⟩

/-- Every share that is not rounded to zero is lost at a small fraction. -/
theorem losesMargin_of_le (hlow : rational? i.low = some x) (hhigh : rational? i.high = some x)
    (hf : rational? fraction = some f) (hpos : 0 < f) (hsmall : f ≤ 2 ^ (-56 : Int))
    (hne : ¬ IsRounded (|x| * f) 0) : i.LosesMargin fraction := by
  have hx := representable_of_rational? hlow
  have hshare : ∀ g, IsRounded (|x| * f) g → |g| ≤ |x| / 2 ^ 55 := fun g hg => by
    calc |g| ≤ 2 * |(|x| * f)| := hg.abs_rounded_le
      _ = 2 * (|x| * f) := by rw [abs_of_nonneg (mul_nonneg (abs_nonneg x) hpos.le)]
      _ ≤ 2 * (|x| * 2 ^ (-56 : Int)) := by gcongr
      _ = |x| / 2 ^ 55 := by
        rw [zpow_neg]
        norm_num
        ring
  generalize hv : i.margin fraction = v
  cases hv ▸ isPointMargin hlow hhigh hf hpos with
  | one hzero => exact absurd hzero hne
  | share hg hg' hrational =>
    rename_i g
    have hx' : x ≠ 0 := by
      rintro rfl
      rw [abs_zero, zero_mul] at hne
      exact hne (isRounded_self (.inl rfl))
    obtain ⟨-, r, hr, -⟩ := correct_sub hlow hrational
    obtain ⟨-, u, hu, -⟩ := correct_add hlow hrational
    have hbelow : r = x := by
      refine hr.eq_of_abs_sub_le hx hx' ?_
      rw [sub_sub_cancel_left, abs_neg]
      exact hshare g hg
    have habove : u = x := by
      refine hu.eq_of_abs_sub_le hx hx' ?_
      rw [add_sub_cancel_left]
      exact hshare g hg
    exact ⟨x, f, g, hlow, hhigh, hf, hg, hg', hbelow ▸ hr, habove ▸ hu⟩
  | infinity hg hgreat =>
    have hle := hgreat.trans (hshare _ hg)
    have hlt := abs_lt_of_representable hx
    have hnonneg := abs_nonneg x
    exact absurd (hle.trans (div_le_self hnonneg (by norm_num))) hlt.not_ge

lemma LosesMargin.fraction_lt (h : i.LosesMargin fraction) (hf : rational? fraction = some f) :
    f < 2 ^ (-52 : Int) := by
  obtain ⟨x, f', g, -, -, hf', hlost⟩ := h
  obtain rfl := Option.some.inj (hf.symm.trans hf')
  exact hlost.fraction_lt

lemma eq_of_ofEnds {low high : Float} (h : ofEnds low high = .ok j) :
    j.low = low ∧ j.high = high := by
  rw [ofEnds] at h
  split at h
  · cases h
  · split at h
    · cases h
      exact ⟨rfl, rfl⟩
    · cases h

/-- An interval with finite ends can be widened.  The wider one holds it, and does not collapse
unless the interval is a point where the margin is lost; that needs a fraction below `2 ^ (-52)`. -/
theorem pad_widens (hlow : i.low.isFinite) (hhigh : i.high.isFinite)
    (hfraction : fraction.isFinite) (hpos : 0 < fraction) :
    ∃ j, i.pad fraction = .ok j ∧ j.low ≤ i.low ∧ i.high ≤ j.high ∧
      (j.low < j.high ↔ ¬ i.LosesMargin fraction) ∧
      (∀ f, rational? fraction = some f → 2 ^ (-52 : Int) ≤ f → j.low < j.high) := by
  obtain ⟨j, hpad, hbelow, habove⟩ := pad_eq_ok hlow hhigh hfraction hpos
  have hiff := sub_margin_lt_iff hlow hhigh hfraction hpos
  obtain ⟨hlow', hhigh'⟩ := eq_of_ofEnds hpad
  rw [← hlow', ← hhigh'] at hiff
  exact ⟨j, hpad, hbelow, habove, hiff, fun f hf hge =>
    hiff.mpr fun hlost => (hlost.fraction_lt hf).not_ge hge⟩

/-- The point five is widened by a twentieth of it on both sides. -/
theorem pad_widens_five : ∃ h j, (⟨5, 5, h⟩ : Interval).pad 0.05 = .ok j ∧ j.low ≤ 5 ∧
    5 ≤ j.high ∧ j.low < j.high := by
  have hpoint : (5 : Float) ≤ 5 := by decide +kernel
  have hfive : (5 : Float).isFinite := by decide +kernel
  have hfraction : (0.05 : Float).isFinite := by decide +kernel
  have hpos : (0 : Float) < 0.05 := by decide +kernel
  have hvalue : rational? 0.05 = some (3602879701896397 / 2 ^ 56) := by decide +kernel
  obtain ⟨j, hpad, hbelow, habove, -, hwide⟩ :=
    pad_widens (i := ⟨5, 5, hpoint⟩) hfive hfive hfraction hpos
  exact ⟨hpoint, j, hpad, hbelow, habove, hwide _ hvalue (by norm_num)⟩

/-- A share of `5e-20` is lost at the point five, which is not widened at all. -/
theorem pad_five_collapses : ∃ h, (5 : Float).isFinite ∧ (1e-20 : Float).isFinite ∧
    (0 : Float) < 1e-20 ∧ (⟨5, 5, h⟩ : Interval).pad 1e-20 = .ok ⟨5, 5, h⟩ ∧
    ¬ (5 : Float) < 5 := by
  refine ⟨by decide +kernel, by decide +kernel, by decide +kernel, by decide +kernel, ?_, ?_⟩
  · decide +kernel
  · decide +kernel

end Interval

end FunctionPlot
