/-
# How far numbers are rounded

Rounding goes by at most one part in `2 ^ 53`, or by half of the smallest number
(`Number.IsRounded.abs_sub_le`), and nothing is rounded to infinity that is less than half of a last
place above the largest number (`Number.IsRounded.abs_lt_of_lt`).  A result that is not too great is
a finite number (`Number.Correct.exists_rational?`).
-/
import FunctionPlot.Proofs.Number.Arithmetic

namespace FunctionPlot

namespace Rounding

variable {m n : Nat} {x y : Rat}

/-- Less than half a step above a natural number nothing is rounded up. -/
lemma Nearest.le_of_lt_half (h : Nearest n y) (hy : y < m + 1 / 2) : n ≤ m := by
  have hlower := h.lower
  have hlt : (n : Rat) < (m + 1 : Nat) := by
    push_cast
    linarith
  have hlt' : n < m + 1 := by exact_mod_cast hlt
  omega

lemma Nearest.abs_sub_le (h : Nearest n y) : |(n : Rat) - y| ≤ 1 / 2 := by
  have hlower := h.lower
  have hupper := h.upper
  rw [abs_le]
  constructor <;> linarith

end Rounding

namespace Magnitude

open Rounding

variable {w : Magnitude} {x y : Rat} {m n : Nat} {t u : Int}

/-- Rounding goes by at most half of the last place. -/
lemma Rounds.abs_sub_le_half (h : Rounds x n t) : |(n : Rat) * 2 ^ t - x| ≤ 2 ^ t / 2 := by
  have hu := two_zpow_pos t
  have hx : (n : Rat) * 2 ^ t - x = (n - x / 2 ^ t) * 2 ^ t := by
    field_simp
  rw [hx, abs_mul, abs_of_pos hu]
  have hhalf := h.nearest.abs_sub_le
  calc |(n : Rat) - x / 2 ^ t| * 2 ^ t ≤ 1 / 2 * 2 ^ t := mul_le_mul_of_nonneg_right hhalf hu.le
    _ = 2 ^ t / 2 := by ring

/-- Less than half of the last place above a magnitude nothing is rounded up. -/
lemma Rounds.le_value_of_lt (h : Rounds x n t) (hw : w.Normalized)
    (hx : x < w.value + 2 ^ w.exponent / 2) : n * 2 ^ t ≤ w.value := by
  have hu := two_zpow_pos w.exponent
  have hlt : w.value + 2 ^ w.exponent ≤ 2 ^ 53 * 2 ^ w.exponent := by
    have hsucc : ((w.significand + 1 : Nat) : Rat) ≤ (2 ^ 53 : Nat) := by exact_mod_cast hw.lt
    push_cast at hsucc
    have hmul := mul_le_mul_of_nonneg_right hsucc hu.le
    rw [value]
    linarith
  rcases lt_trichotomy w.exponent t with hexponent | rfl | hexponent
  · have hfull := (le_div_iff₀ (two_zpow_pos t)).mp (h.full_length hw.le_exponent hexponent)
    have hstep : (2 : Rat) ^ 53 * 2 ^ w.exponent ≤ 2 ^ 52 * 2 ^ t := two_zpow_step hexponent
    linarith
  · refine mul_le_mul_of_nonneg_right ?_ hu.le
    have hhalf : x / 2 ^ w.exponent < w.significand + 1 / 2 := by
      rw [div_lt_iff₀ hu]
      rw [value] at hx
      linarith
    exact_mod_cast h.nearest.le_of_lt_half hhalf
  · -- the magnitude has a full significand, and `x` is below all of those
    have hnormal : 2 ^ 52 ≤ w.significand := hw.normal.resolve_right fun hleast => by
      have := h.le_exponent
      omega
    have hfull : (2 : Rat) ^ 52 * 2 ^ w.exponent ≤ w.value :=
      mul_le_mul_of_nonneg_right (by exact_mod_cast hnormal) hu.le
    have hbelow := (div_lt_iff₀ (two_zpow_pos t)).mp h.lt
    exact h.mono (rounds_self hw) (by linarith [two_zpow_step hexponent])

/-- Half of the last place is one part in `2 ^ 53`, or half of the smallest number. -/
lemma Rounds.half_le (h : Rounds x n t) : (2 : Rat) ^ t / 2 ≤ max (x / 2 ^ 53) (2 ^ (-1075 : Int)) := by
  have hu := two_zpow_pos t
  rcases h.normal with hfull | rfl
  · rw [le_div_iff₀ hu] at hfull
    refine le_max_of_le_left ?_
    rw [le_div_iff₀ (by positivity)]
    linarith
  · refine le_max_of_le_right ?_
    rw [← half_eq]
    norm_num

end Magnitude

namespace Number

open Float.Model Float.Model.UnpackedFloat

variable {v : Float} {x y r u d : Rat} {s : Sign}

namespace IsRounded

lemma nonneg (h : IsRounded x r) (hx : 0 ≤ x) : 0 ≤ r := (h.brackets 0 (.inl rfl)).2 hx

lemma nonpos (h : IsRounded x r) (hx : x ≤ 0) : r ≤ 0 := (h.brackets 0 (.inl rfl)).1 hx

lemma unique (hx : IsRounded x r) (hy : IsRounded x u) : r = u :=
  le_antisymm (hx.mono hy le_rfl) (hy.mono hx le_rfl)

/-- Rounding goes by at most one part in `2 ^ 53`, or by half of the smallest number. -/
theorem abs_sub_le (h : IsRounded x r) : |r - x| ≤ max (|x| / 2 ^ 53) (2 ^ (-1075 : Int)) := by
  obtain ⟨s, a, m, t, ha, rfl, hm, rfl⟩ := h
  have herror := hm.abs_sub_le_half.trans hm.half_le
  cases s with
  | positive => rwa [signed, signed, abs_of_nonneg ha]
  | negative =>
    rwa [signed, signed, abs_neg, abs_of_nonneg ha, neg_sub_neg, abs_sub_comm]

lemma abs_sub_le_add (h : IsRounded x r) : |r - x| ≤ |x| / 2 ^ 53 + 2 ^ (-1075 : Int) :=
  h.abs_sub_le.trans
    (max_le_add_of_nonneg (by positivity) (Magnitude.two_zpow_pos (-1075)).le)

/-- The error below a bound that is far above the smallest numbers. -/
lemma abs_sub_le_of_abs_le {c : Rat} (h : IsRounded x r) (hx : |x| ≤ c) (hc : 1 / 2 ≤ c) :
    |r - x| ≤ c / 2 ^ 53 := by
  have hsmall : (2 : Rat) ^ (-1075 : Int) ≤ c / 2 ^ 53 := by
    calc (2 : Rat) ^ (-1075 : Int) ≤ 2 ^ (-54 : Int) :=
          zpow_le_zpow_right₀ (by norm_num) (by norm_num)
      _ = 1 / 2 / 2 ^ 53 := by norm_num
      _ ≤ c / 2 ^ 53 := div_le_div_of_nonneg_right hc (by norm_num)
  exact h.abs_sub_le.trans (max_le (div_le_div_of_nonneg_right hx (by norm_num)) hsmall)

lemma abs (h : IsRounded x r) : IsRounded |x| |r| := by
  obtain ⟨s, a, m, t, ha, rfl, hm, rfl⟩ := h
  have hr := mul_nonneg (Nat.cast_nonneg m) (Magnitude.two_zpow_pos t).le
  refine ⟨.positive, a, m, t, ha, ?_, hm, ?_⟩
  · cases s with
    | positive => exact abs_of_nonneg ha
    | negative => exact (abs_neg a).trans (abs_of_nonneg ha)
  · cases s with
    | positive => exact abs_of_nonneg hr
    | negative => exact (abs_neg _).trans (abs_of_nonneg hr)

/-- Less than half of the last place above a magnitude nothing is rounded up. -/
lemma le_value_of_lt {w : Magnitude} (h : IsRounded x r) (hw : w.Normalized)
    (hx : x < w.value + 2 ^ w.exponent / 2) : r ≤ w.value := by
  have hnonpos := h.nonpos
  obtain ⟨s, a, m, t, ha, rfl, hm, rfl⟩ := h
  cases s with
  | positive => exact hm.le_value_of_lt hw hx
  | negative => exact (hnonpos (neg_nonpos.mpr ha)).trans hw.value_pos.le

/-- What can be represented is not rounded. -/
lemma eq_self (h : IsRounded x r) (hx : Representable x) : r = x := h.unique (isRounded_self hx)

lemma le_of_le (h : IsRounded x r) (hd : Representable d) (hx : x ≤ d) : r ≤ d :=
  (h.brackets d hd).1 hx

lemma le_of_ge (h : IsRounded x r) (hd : Representable d) (hx : d ≤ x) : d ≤ r :=
  (h.brackets d hd).2 hx

/-- The magnitude is not rounded above what can be represented. -/
lemma abs_le_of_le (h : IsRounded x r) (hd : Representable d) (hx : |x| ≤ d) : |r| ≤ d := by
  obtain ⟨hlow, hhigh⟩ := abs_le.mp hx
  exact abs_le.mpr ⟨h.le_of_ge hd.neg hlow, h.le_of_le hd hhigh⟩

end IsRounded

/-! ### Finite numbers -/

lemma Representable.abs (hr : Representable r) : Representable |r| := by
  rcases abs_choice r with h | h <;> rw [h]
  · exact hr
  · exact hr.neg

lemma representable_one : Representable 1 := by
  have hone := representable_natCast (n := 1) (by norm_num)
  rwa [Nat.cast_one] at hone

/-- The largest finite number. -/
def largest : Rat := (2 ^ 53 - 1) * 2 ^ (971 : Int)

lemma canonical_full {q : Int} (hlow : -1074 ≤ q) (hhigh : q ≤ 971) :
    Magnitude.Canonical ⟨2 ^ 53 - 1, q⟩ :=
  ⟨by norm_num, by norm_num, hlow, hhigh, .inl (by norm_num)⟩

lemma value_full (q : Int) : Magnitude.value ⟨2 ^ 53 - 1, q⟩ = (2 ^ 53 - 1) * 2 ^ q := by
  rw [Magnitude.value]
  norm_num

lemma largest_lt : largest < 2 ^ 1024 := by
  rw [largest, ← value_full]
  exact lt_of_canonical (canonical_full (by norm_num) le_rfl)

lemma abs_le_largest (hr : Representable r) : |r| ≤ largest := by
  rcases hr with rfl | ⟨w, hw, habs⟩
  · rw [abs_zero, largest]
    positivity
  · have hsignificand : ((w.significand + 1 : Nat) : Rat) ≤ (2 ^ 53 : Nat) := by
      exact_mod_cast hw.lt
    push_cast at hsignificand
    rw [habs, Magnitude.value, largest]
    exact mul_le_mul (by linarith) (zpow_le_zpow_right₀ (by norm_num) hw.exponent_le)
      (Magnitude.two_zpow_pos _).le (by norm_num)

namespace IsRounded

/-- What is rounded can be represented if it is not too great. -/
lemma representable (h : IsRounded x r) (hr : |r| < 2 ^ 1024) : Representable r := by
  obtain ⟨s, a, m, t, ha, rfl, hm, rfl⟩ := h
  rcases hm.exists_shift with ⟨rfl, -⟩ | ⟨w, hw, hvalue, -⟩
  · refine .inl ?_
    cases s <;> simp [signed]
  · have habs : |signed s w.value| = w.value := by
      cases s with
      | positive => exact abs_of_pos hw.value_pos
      | negative => exact (abs_neg _).trans (abs_of_pos hw.value_pos)
    rw [← hvalue] at hr ⊢
    have hexponent : w.exponent ≤ 971 := by
      by_contra hgreat
      exact absurd (le_of_normalized hw (not_le.mp hgreat)) (habs ▸ hr).not_ge
    exact representable_signed ⟨hw.pos, hw.lt, hw.le_exponent, hexponent, hw.normal⟩

/-- Less than half of the last place above the largest number nothing is rounded to infinity. -/
lemma abs_lt_of_lt (h : IsRounded x r) (hx : |x| < largest + 2 ^ (971 : Int) / 2) :
    |r| < 2 ^ 1024 := by
  rw [largest, ← value_full] at hx
  refine lt_of_le_of_lt ?_ largest_lt
  rw [largest, ← value_full]
  exact h.abs.le_value_of_lt (canonical_full (by norm_num) le_rfl).normalized hx

end IsRounded

namespace Correct

/-- A result that is not too great is finite. -/
lemma exists_rational? (h : Correct x v) (hfits : ∀ r, IsRounded x r → |r| < 2 ^ 1024) :
    ∃ r, IsRounded x r ∧ rational? v = some r := by
  obtain ⟨r, hr, hlevel⟩ := h.exists_level
  rw [boundedLevel_of_abs_lt (hfits r hr)] at hlevel
  exact ⟨r, hr, rational?_eq_some_iff.mpr ⟨h.not_isNaN, hlevel⟩⟩

lemma exists_rational?_of_abs_le (h : Correct x v) (hd : Representable d) (hx : |x| ≤ d) :
    ∃ r, IsRounded x r ∧ rational? v = some r := by
  refine h.exists_rational? fun r hr => (hr.abs_le_of_le hd hx).trans_lt ?_
  have hbound := abs_lt_of_representable hd
  rwa [abs_of_nonneg ((abs_nonneg x).trans hx)] at hbound

end Correct

end Number

end FunctionPlot
