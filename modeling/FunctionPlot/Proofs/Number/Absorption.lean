/-
# Numbers that are lost in a sum

A number that is far below another one is lost when it is added to it or taken from it: what differs
from a number by at most one part in `2 ^ 55` is rounded back to it
(`Number.IsRounded.eq_of_abs_sub_le`).  Conversely a summand that is lost is at most one part in
`2 ^ 53` of the sum of the magnitudes (`Number.IsRounded.abs_le_of_absorbed`).

What is not rounded to zero is rounded by at most half of the result, even among the smallest
numbers (`Number.IsRounded.abs_sub_le_half`).
-/
import FunctionPlot.Proofs.Number.Error

namespace FunctionPlot

/-- Less than half a step below a natural number nothing is rounded down. -/
lemma Rounding.Nearest.le_of_half_lt {m n : Nat} {y : Rat} (h : Nearest n y)
    (hy : m - 1 / 2 < y) : m ≤ n := by
  have hupper := h.upper
  have hlt : (m : Rat) < (n + 1 : Nat) := by
    push_cast
    linarith
  exact Nat.lt_succ_iff.mp (by exact_mod_cast hlt)

namespace Magnitude

open Rounding

variable {w : Magnitude} {x : Rat} {n : Nat} {t : Int}

/-- Just below a power of two the numbers lie twice as close as above, so that only a quarter of the
last place is rounded up there. -/
lemma Rounds.value_le_of_lower_exponent (h : Rounds x n t) (hw : w.Normalized)
    (hx : w.value - 2 ^ w.exponent / 4 < x) (hexponent : t < w.exponent) :
    w.value ≤ n * 2 ^ t := by
  have ht := two_zpow_pos t
  have hnormal : 2 ^ 52 ≤ w.significand := hw.normal.resolve_right fun hleast => by
    have := h.le_exponent
    omega
  have hfull : (2 : Rat) ^ 52 * 2 ^ w.exponent ≤ w.value :=
    mul_le_mul_of_nonneg_right (by exact_mod_cast hnormal) (two_zpow_pos w.exponent).le
  have hbelow := (div_lt_iff₀ ht).mp h.lt
  rcases (by omega : w.exponent = t + 1 ∨ t + 1 < w.exponent) with hnext | hfar
  · have hstep : (2 : Rat) ^ w.exponent = 2 * 2 ^ t := by
      rw [hnext, zpow_add_one₀ (by norm_num), mul_comm]
    rw [value, hstep] at hx hfull ⊢
    -- the magnitude is the power of two, and `x` is rounded up to it
    have hsignificand : w.significand < 2 ^ 52 + 1 := by
      have hlt : (w.significand : Rat) * (2 * 2 ^ t) < (2 ^ 52 + 1 : Nat) * (2 * 2 ^ t) := by
        push_cast
        linarith
      exact_mod_cast lt_of_mul_lt_mul_right hlt (by positivity)
    have hn : 2 ^ 53 ≤ n := by
      refine h.nearest.le_of_half_lt ?_
      rw [lt_div_iff₀ ht]
      push_cast
      linarith
    have hle : 2 * w.significand ≤ n := by omega
    calc (w.significand : Rat) * (2 * 2 ^ t) = (2 * w.significand : Nat) * 2 ^ t := by
          push_cast
          ring
      _ ≤ n * 2 ^ t := mul_le_mul_of_nonneg_right (by exact_mod_cast hle) ht.le
  · have hstep := two_zpow_step hfar
    rw [zpow_add_one₀ (by norm_num)] at hstep
    linarith

/-- Less than a quarter of the last place below a magnitude nothing is rounded down. -/
lemma Rounds.value_le_of_lt (h : Rounds x n t) (hw : w.Normalized)
    (hx : w.value - 2 ^ w.exponent / 4 < x) : w.value ≤ n * 2 ^ t := by
  have hu := two_zpow_pos w.exponent
  rcases lt_trichotomy w.exponent t with hexponent | rfl | hexponent
  · have hfull := (le_div_iff₀ (two_zpow_pos t)).mp (h.full_length hw.le_exponent hexponent)
    exact (rounds_self hw).mono h ((hw.value_lt hexponent).le.trans hfull)
  · refine mul_le_mul_of_nonneg_right ?_ hu.le
    have hquarter : (w.significand : Rat) - 1 / 2 < x / 2 ^ w.exponent := by
      rw [lt_div_iff₀ hu]
      rw [value] at hx
      linarith
    exact_mod_cast h.nearest.le_of_half_lt hquarter
  · exact h.value_le_of_lower_exponent hw hx hexponent

end Magnitude

namespace Number

variable {a b v : Float} {x y r u g : Rat}

namespace IsRounded

lemma neg (h : IsRounded x r) : IsRounded (-x) (-r) := by
  obtain ⟨s, a, m, t, ha, rfl, hm, rfl⟩ := h
  cases s with
  | positive => exact ⟨.negative, a, m, t, ha, rfl, hm, rfl⟩
  | negative => exact ⟨.positive, a, m, t, ha, neg_neg a, hm, neg_neg _⟩

/-- There is no smaller number than the smallest one. -/
lemma smallest_le (h : IsRounded x r) (hne : r ≠ 0) : 2 ^ (-1074 : Int) ≤ |r| := by
  obtain ⟨s, a, m, t, -, -, hm, rfl⟩ := h
  have ht := Magnitude.two_zpow_pos t
  have habs : |signed s (m * 2 ^ t)| = m * 2 ^ t := by
    have hnonneg : (0 : Rat) ≤ m * 2 ^ t := mul_nonneg (Nat.cast_nonneg m) ht.le
    cases s with
    | positive => exact abs_of_nonneg hnonneg
    | negative => exact (abs_neg _).trans (abs_of_nonneg hnonneg)
  have hone : (1 : Rat) ≤ m := by
    have hm' : m ≠ 0 := by
      rintro rfl
      exact hne (by cases s <;> simp [signed])
    exact_mod_cast Nat.one_le_iff_ne_zero.mpr hm'
  rw [habs]
  calc (2 : Rat) ^ (-1074 : Int) ≤ 2 ^ t := zpow_le_zpow_right₀ (by norm_num) hm.le_exponent
    _ ≤ m * 2 ^ t := le_mul_of_one_le_left ht.le hone

/-- What is not rounded to zero is rounded by at most half of the result. -/
lemma abs_sub_le_half (h : IsRounded x r) (hne : r ≠ 0) : |r - x| ≤ |r| / 2 := by
  have herror := h.abs_sub_le
  have hx : |x| ≤ |r| + |r - x| := by
    have htriangle := abs_sub r (r - x)
    rwa [sub_sub_cancel] at htriangle
  rcases le_max_iff.mp herror with hle | hle
  · have hnonneg := abs_nonneg r
    linarith
  · have hsmallest := h.smallest_le hne
    have hhalf : (2 : Rat) ^ (-1075 : Int) = 2 ^ (-1074 : Int) / 2 := by
      rw [← Magnitude.half_eq]
      norm_num
    linarith

lemma abs_le_of_ne_zero (h : IsRounded x r) (hne : r ≠ 0) : |x| ≤ 3 / 2 * |r| := by
  have hhalf := h.abs_sub_le_half hne
  have htriangle := abs_sub r (r - x)
  rw [sub_sub_cancel] at htriangle
  linarith

lemma abs_rounded_le (h : IsRounded x r) : |r| ≤ 2 * |x| := by
  rcases eq_or_ne r 0 with rfl | hne
  · rw [abs_zero]
    positivity
  · have hhalf := h.abs_sub_le_half hne
    have htriangle := abs_add_le (r - x) x
    rw [sub_add_cancel] at htriangle
    linarith

/-- What is rounded to zero is at most half of the smallest number. -/
lemma abs_le_of_zero (h : IsRounded x 0) : |x| ≤ 2 ^ (-1075 : Int) := by
  have herror := h.abs_sub_le
  rw [zero_sub, abs_neg] at herror
  rcases le_max_iff.mp herror with hle | hle
  · have hnonneg := abs_nonneg x
    have hzero : |x| ≤ 0 := by linarith
    exact hzero.trans (Magnitude.two_zpow_pos _).le
  · exact hle

/-- Less than a quarter of the last place below a magnitude nothing is rounded down. -/
lemma value_le_of_lt {w : Magnitude} (h : IsRounded x r) (hw : w.Normalized)
    (hx : w.value - 2 ^ w.exponent / 4 < x) : w.value ≤ r := by
  have hpos : 0 < x := by
    have hone : (1 : Rat) ≤ w.significand := by exact_mod_cast hw.pos
    have hle := le_mul_of_one_le_left (Magnitude.two_zpow_pos w.exponent).le hone
    have hu := Magnitude.two_zpow_pos w.exponent
    rw [Magnitude.value] at hx
    linarith
  obtain ⟨s, a, m, t, ha, rfl, hm, rfl⟩ := h
  cases s with
  | positive => exact hm.value_le_of_lt hw hx
  | negative => exact absurd hpos (neg_nonpos.mpr ha).not_gt

/-- What differs from a number by little is rounded back to it. -/
theorem eq_of_abs_sub_le (h : IsRounded y r) (hx : Representable x) (hne : x ≠ 0)
    (hy : |y - x| ≤ |x| / 2 ^ 55) : r = x := by
  obtain ⟨w, hw, habs⟩ := hx.resolve_left hne
  have hquarter : |x| / 2 ^ 55 < 2 ^ w.exponent / 4 := by
    have hlt : (w.significand : Rat) < 2 ^ 53 := by exact_mod_cast hw.lt
    have hmul := mul_lt_mul_of_pos_right hlt (Magnitude.two_zpow_pos w.exponent)
    rw [habs, Magnitude.value, div_lt_div_iff₀ (by norm_num) (by norm_num)]
    linarith
  obtain ⟨hlow, hhigh⟩ := abs_lt.mp (hy.trans_lt hquarter)
  have hu := Magnitude.two_zpow_pos w.exponent
  rcases le_total 0 x with hsign | hsign
  · rw [abs_of_nonneg hsign] at habs
    rw [habs] at hlow hhigh ⊢
    exact le_antisymm (h.le_value_of_lt hw.normalized (by linarith))
      (h.value_le_of_lt hw.normalized (by linarith))
  · rw [abs_of_nonpos hsign] at habs
    rw [← neg_inj, habs]
    exact le_antisymm (h.neg.le_value_of_lt hw.normalized (by linarith))
      (h.neg.value_le_of_lt hw.normalized (by linarith))

/-- A summand that is lost is at most one part in `2 ^ 53` of both magnitudes together. -/
theorem abs_le_of_absorbed (h : IsRounded (x + g) x) (hg : 2 ^ (-1074 : Int) ≤ |g|) :
    |g| ≤ (|x| + |g|) / 2 ^ 53 := by
  have herror := h.abs_sub_le
  rw [sub_add_cancel_left, abs_neg] at herror
  rcases le_max_iff.mp herror with hle | hle
  · exact hle.trans (div_le_div_of_nonneg_right (abs_add_le x g) (by norm_num))
  · have hlt : (2 : Rat) ^ (-1075 : Int) < 2 ^ (-1074 : Int) :=
      zpow_lt_zpow_right₀ (by norm_num) (by norm_num)
    exact absurd (hg.trans hle) hlt.not_ge

end IsRounded

lemma eq_of_boundedLevel (h : boundedLevel r = (x : WithTop Rat)) : r = x := by
  rw [boundedLevel] at h
  split at h
  · cases h
  · split at h
    · cases h
    · exact_mod_cast h

/-- A number that is made less on one side and greater on the other is changed, unless both are
rounded back to it. -/
lemma sub_lt_add_iff (ha : rational? a = some x) (hb : rational? b = some x)
    (hv : rational? v = some g) (hg : 0 ≤ g) :
    a - v < b + v ↔ ¬ (IsRounded (x - g) x ∧ IsRounded (x + g) x) := by
  obtain ⟨hbelow, r, hr, hrlevel⟩ := correct_sub ha hv
  obtain ⟨habove, u, hu, hulevel⟩ := correct_add hb hv
  rw [lt_iff, and_iff_right hbelow, and_iff_right habove, hrlevel, hulevel]
  have hx := representable_of_rational? ha
  have hlevel := boundedLevel_of_abs_lt (abs_lt_of_representable hx)
  have hrx := boundedLevel_mono (hr.le_of_le hx (sub_le_self x hg))
  have hxu := boundedLevel_mono (hu.le_of_ge hx (le_add_of_nonneg_right hg))
  rw [hlevel] at hrx hxu
  constructor
  · rintro hlt ⟨hr', hu'⟩
    rw [hr.unique hr', hu.unique hu'] at hlt
    exact lt_irrefl _ hlt
  · refine fun h => lt_of_not_ge fun hge => h ⟨?_, ?_⟩
    · rwa [eq_of_boundedLevel (le_antisymm hrx (hxu.trans hge))] at hr
    · rwa [eq_of_boundedLevel (le_antisymm (hge.trans hrx) hxu)] at hu

/-- No number is infinite on both sides. -/
lemma sub_lt_add_infinity (ha : rational? a = some x) (hb : rational? b = some y)
    (hv : v.toModel.unpack = .infinity .positive) : a - v < b + v := by
  have hneg : (-v).toModel.unpack = .infinity .negative := by
    rw [unpack_neg, hv]
    rfl
  have hbelow := unpack_add_infinity ha hneg
  have habove := unpack_add_infinity hb hv
  rw [← sub_eq] at hbelow
  rw [lt_iff]
  refine ⟨not_isNaN_of_unpack_infinity hbelow, not_isNaN_of_unpack_infinity habove, ?_⟩
  rw [level, level, hbelow, habove]
  exact bot_lt_top

end Number

end FunctionPlot
