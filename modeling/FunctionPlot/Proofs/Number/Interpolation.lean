/-
# Rounded interpolation

A number between two others is made by rounded operations from its weight `t`: first `1 - t`, then
both ends times their weights, and then the sum (`Number.Interpolation`).  The last sum does not get
too great, however great the ends are (`Number.Interpolation.abs_add_lt`), and it is near to the
exact one (`Number.Interpolation.abs_sub_le`).

Between ends on both sides of zero it keeps the order of the weights
(`Number.Interpolation.mono`).  It need not do so between ends on one side of zero, where one product
gets greater and the other one less, and both are rounded.
-/
import FunctionPlot.Proofs.Number.Error

namespace FunctionPlot

/-- A magnitude is a multiple of every power of two that is not above its exponent. -/
lemma Magnitude.exists_value_eq (w : Magnitude) {t : Int} (h : t ≤ w.exponent) :
    ∃ k : Nat, w.value = k * 2 ^ t := by
  refine ⟨w.significand * 2 ^ (w.exponent - t).toNat, ?_⟩
  have hexponent : w.exponent = t + ((w.exponent - t).toNat : Nat) := by omega
  rw [value, hexponent, two_zpow_add, ← hexponent]
  push_cast
  ring

namespace Number

/-- The weights `s` and `t` of two ends `l` and `h`, and the ends times their weights, with all
operations rounded. -/
structure Interpolation (l h t s a b : Rat) : Prop where
  low_representable : Representable l
  high_representable : Representable h
  weight_representable : Representable t
  weight_nonneg : 0 ≤ t
  weight_le_one : t ≤ 1
  rest_rounded : IsRounded (1 - t) s
  low_rounded : IsRounded (l * s) a
  high_rounded : IsRounded (h * t) b

variable {l h t s a b t' s' a' b' x μ p q : Rat}

lemma abs_mul_le_of_weight (hp : 0 ≤ p) (hp' : p ≤ 1) : |x * p| ≤ |x| := by
  rw [abs_mul, abs_of_nonneg hp]
  exact mul_le_of_le_one_right (abs_nonneg x) hp'

/-- A number times a weight is not rounded above the number. -/
lemma abs_le_of_weight (hx : Representable x) (hp : 0 ≤ p) (hp' : p ≤ 1)
    (hy : IsRounded (x * p) b) : |b| ≤ |x| :=
  hy.abs_le_of_le hx.abs (abs_mul_le_of_weight hp hp')

lemma abs_one_sub_le (hp : 0 ≤ p) (hp' : p ≤ 1) : |1 - p| ≤ 1 := by
  rw [abs_of_nonneg (sub_nonneg.mpr hp')]
  exact sub_le_self 1 hp

namespace Interpolation

lemma rest_nonneg (i : Interpolation l h t s a b) : 0 ≤ s :=
  i.rest_rounded.nonneg (sub_nonneg.mpr i.weight_le_one)

lemma rest_le_one (i : Interpolation l h t s a b) : s ≤ 1 :=
  i.rest_rounded.le_of_le representable_one (sub_le_self 1 i.weight_nonneg)

lemma rest_representable (i : Interpolation l h t s a b) : Representable s := by
  refine i.rest_rounded.representable ?_
  rw [abs_of_nonneg i.rest_nonneg]
  exact i.rest_le_one.trans_lt (one_lt_pow₀ (by norm_num) (by norm_num))

lemma abs_low_le (i : Interpolation l h t s a b) : |a| ≤ |l| :=
  abs_le_of_weight i.low_representable i.rest_nonneg i.rest_le_one i.low_rounded

lemma abs_high_le (i : Interpolation l h t s a b) : |b| ≤ |h| :=
  abs_le_of_weight i.high_representable i.weight_nonneg i.weight_le_one i.high_rounded

/-- At the weight zero it is the one end. -/
theorem eq_low (i : Interpolation l h 0 s a b) : a + b = l := by
  obtain ⟨hl, -, -, -, -, hs, ha, hb⟩ := i
  rw [sub_zero] at hs
  obtain rfl := hs.eq_self representable_one
  rw [mul_one] at ha
  rw [mul_zero] at hb
  rw [ha.eq_self hl, hb.eq_self (.inl rfl), add_zero]

/-! ### Ends on both sides of zero -/

/-- Between ends on both sides of zero the sum keeps the order of the weights. -/
theorem mono (i : Interpolation l h t s a b) (j : Interpolation l h t' s' a' b') (hl : l ≤ 0)
    (hh : 0 ≤ h) (ht : t ≤ t') : a + b ≤ a' + b' := by
  have hs : s' ≤ s := j.rest_rounded.mono i.rest_rounded (sub_le_sub_left ht 1)
  have ha : a ≤ a' := i.low_rounded.mono j.low_rounded (mul_le_mul_of_nonpos_left hs hl)
  have hb : b ≤ b' := i.high_rounded.mono j.high_rounded (mul_le_mul_of_nonneg_left ht hh)
  exact add_le_add ha hb

/-- It does not go above the upper end. -/
theorem le_high (i : Interpolation l h t s a b) (hl : l ≤ 0) (hh : 0 ≤ h) : a + b ≤ h := by
  have ha : a ≤ 0 := i.low_rounded.nonpos (mul_nonpos_of_nonpos_of_nonneg hl i.rest_nonneg)
  have hb : b ≤ h := i.high_rounded.le_of_le i.high_representable
    (mul_le_of_le_one_right hh i.weight_le_one)
  linarith

/-! ### How far it is from the exact number -/

/-- The error of a product with a weight. -/
lemma abs_mul_sub_le (hx : |x| ≤ μ) (hp : 0 ≤ p) (hp' : p ≤ 1) (hy : IsRounded (x * p) b) :
    |b - x * p| ≤ μ / 2 ^ 53 + 2 ^ (-1075 : Int) := by
  have hle : |x * p| ≤ μ := (abs_mul_le_of_weight hp hp').trans hx
  have herror := hy.abs_sub_le_add
  have hdiv := div_le_div_of_nonneg_right hle (by norm_num : (0 : Rat) ≤ 2 ^ 53)
  linarith

lemma abs_add_le_bound (i : Interpolation l h t s a b) (hl : |l| ≤ μ) (hh : |h| ≤ μ) :
    |a + b| ≤ 2 * μ := by
  have hsum := abs_add_le a b
  have ha := i.abs_low_le
  have hb := i.abs_high_le
  linarith

/-- The sum is near to the exact number. -/
theorem abs_sub_le (i : Interpolation l h t s a b) (hl : |l| ≤ μ) (hh : |h| ≤ μ) :
    |a + b - (l * (1 - t) + h * t)| ≤ 3 * (μ / 2 ^ 53) + 2 * 2 ^ (-1075 : Int) := by
  have hweight : |s - (1 - t)| ≤ 1 / 2 ^ 53 := i.rest_rounded.abs_sub_le_of_abs_le
    (abs_one_sub_le i.weight_nonneg i.weight_le_one) (by norm_num)
  have hrest : |l * (s - (1 - t))| ≤ μ / 2 ^ 53 := by
    rw [abs_mul, div_eq_mul_one_div]
    exact mul_le_mul hl hweight (abs_nonneg _) ((abs_nonneg l).trans hl)
  have hlow := abs_mul_sub_le hl i.rest_nonneg i.rest_le_one i.low_rounded
  have hhigh := abs_mul_sub_le hh i.weight_nonneg i.weight_le_one i.high_rounded
  calc |a + b - (l * (1 - t) + h * t)|
      = |(a - l * s) + l * (s - (1 - t)) + (b - h * t)| := by
        congr 1
        ring
    _ ≤ |a - l * s| + |l * (s - (1 - t))| + |b - h * t| := abs_add_three _ _ _
    _ ≤ 3 * (μ / 2 ^ 53) + 2 * 2 ^ (-1075 : Int) := by linarith

/-! ### The sum is not too great -/

/-- A weight above one half has at least `2 ^ 52 + 1` of `2 ^ 53` parts. -/
lemma exists_eq_div (hp : Representable p) (hhalf : 1 / 2 < p) (hone : p ≤ 1) :
    ∃ k : Nat, 2 ^ 52 ≤ k ∧ k + 1 ≤ 2 ^ 53 ∧ p = (k + 1) / 2 ^ 53 := by
  rcases hp with rfl | ⟨w, hw, habs⟩
  · norm_num at hhalf
  rw [abs_of_pos (by linarith)] at habs
  have hexponent : -53 ≤ w.exponent := by
    by_contra hlt
    have hvalue := hw.normalized.value_lt (not_le.mp hlt)
    norm_num at hvalue
    linarith
  obtain ⟨k, hk⟩ := w.exists_value_eq hexponent
  have hp : p = k / 2 ^ 53 := by
    rw [habs, hk]
    norm_num
    ring
  have hlow : ((2 ^ 52 : Nat) : Rat) < k := by
    rw [hp, lt_div_iff₀ (by norm_num)] at hhalf
    push_cast
    linarith
  have hhigh : (k : Rat) ≤ (2 ^ 53 : Nat) := by
    rw [hp, div_le_iff₀ (by norm_num)] at hone
    push_cast
    linarith
  have hlow' : 2 ^ 52 < k := by exact_mod_cast hlow
  have hhigh' : k ≤ 2 ^ 53 := by exact_mod_cast hhigh
  refine ⟨k - 1, by omega, by omega, ?_⟩
  rw [hp, Nat.cast_sub (by omega)]
  push_cast
  ring

/-- The product with `k + 1` of `2 ^ 53` parts is rounded to at most `k` last places of the largest
number. -/
lemma abs_le_of_parts {k : Nat} (hlow : 2 ^ 52 ≤ k) (hhigh : k + 1 ≤ 2 ^ 53) (hl : |l| ≤ largest)
    (ha : IsRounded (l * ((k + 1) / 2 ^ 53)) a) : |a| ≤ k * 2 ^ (971 : Int) := by
  have hw : Magnitude.Normalized ⟨k, 971⟩ :=
    ⟨(Nat.two_pow_pos 52).trans_le hlow, hhigh, by norm_num, .inl hlow⟩
  have hparts : (0 : Rat) < (k + 1) / 2 ^ 53 := by positivity
  have hproduct : |l * (((k : Rat) + 1) / 2 ^ 53)| ≤ largest * ((k + 1) / 2 ^ 53) := by
    rw [abs_mul, abs_of_pos hparts]
    exact mul_le_mul_of_nonneg_right hl hparts.le
  have hk : (2 : Rat) ^ 52 * 2 ^ (971 : Int) < (k + 1) * 2 ^ (971 : Int) :=
    mul_lt_mul_of_pos_right (by exact_mod_cast Nat.lt_succ_of_le hlow) (Magnitude.two_zpow_pos 971)
  refine ha.abs.le_value_of_lt hw (hproduct.trans_lt ?_)
  rw [Magnitude.value, largest]
  dsimp only
  generalize (2 : Rat) ^ (971 : Int) = u at hk ⊢
  linarith

/-- The product with the other parts, and half of a part more. -/
lemma abs_le_of_rest {k : Nat} (hhigh : k + 1 ≤ 2 ^ 53) (hh : |h| ≤ largest) (hq : 0 ≤ q)
    (hq' : q ≤ 1 - (k + 1) / 2 ^ 53 + 1 / 2 ^ 54) (hb : IsRounded (h * q) b) :
    |b| < (2 ^ 53 - k - 1 / 2) * 2 ^ (971 : Int) := by
  have hsmall : (2 : Rat) ^ (-1075 : Int) < 2 ^ (971 : Int) / 2 ^ 107 := by
    calc (2 : Rat) ^ (-1075 : Int) < 2 ^ (971 - (107 : Nat) : Int) :=
          zpow_lt_zpow_right₀ (by norm_num) (by norm_num)
      _ = 2 ^ (971 : Int) / 2 ^ 107 := by rw [zpow_sub₀ (by norm_num), zpow_natCast]
  have hk : ((k : Rat) + 1) * 2 ^ (971 : Int) ≤ 2 ^ 53 * 2 ^ (971 : Int) :=
    mul_le_mul_of_nonneg_right (by exact_mod_cast hhigh) (Magnitude.two_zpow_pos 971).le
  have hproduct : |h * q| ≤ largest * (1 - ((k : Rat) + 1) / 2 ^ 53 + 1 / 2 ^ 54) := by
    rw [abs_mul, abs_of_nonneg hq]
    exact mul_le_mul hh hq' hq ((abs_nonneg h).trans hh)
  have herror := (abs_le.mp hb.abs.abs_sub_le_add).2
  rw [abs_abs] at herror
  rw [largest] at hproduct
  generalize (2 : Rat) ^ (971 : Int) = u at *
  generalize (2 : Rat) ^ (-1075 : Int) = v at *
  linarith

/-- With more than half of one number and hardly more than the rest of another one, both products
together stay below the middle between the largest number and the next power of two. -/
lemma abs_add_abs_lt (hl : |l| ≤ largest) (hh : |h| ≤ largest) (hp : Representable p)
    (hhalf : 1 / 2 < p) (hone : p ≤ 1) (hq : 0 ≤ q) (hpq : q ≤ 1 - p + 1 / 2 ^ 54)
    (ha : IsRounded (l * p) a) (hb : IsRounded (h * q) b) :
    |a| + |b| < largest + 2 ^ (971 : Int) / 2 := by
  obtain ⟨k, hlow, hhigh, rfl⟩ := exists_eq_div hp hhalf hone
  have hfirst := abs_le_of_parts hlow hhigh hl ha
  have hsecond := abs_le_of_rest hhigh hh hq hpq hb
  rw [largest]
  generalize (2 : Rat) ^ (971 : Int) = u at *
  linarith

/-- A number with at most half of its weight is not rounded above half of the largest number. -/
lemma abs_le_half (hx : |x| ≤ largest) (hp : 0 ≤ p) (hp' : p ≤ 1 / 2) (hy : IsRounded (x * p) b) :
    |b| ≤ largest / 2 := by
  have hhalf : largest / 2 = Magnitude.value ⟨2 ^ 53 - 1, 970⟩ := by
    rw [value_full, largest, mul_div_assoc, ← Magnitude.half_eq]
    rfl
  have hrepresentable : Representable (largest / 2) := by
    rw [hhalf]
    exact representable_signed (s := .positive) (canonical_full (by norm_num) (by norm_num))
  refine hy.abs_le_of_le hrepresentable ?_
  rw [abs_mul, abs_of_nonneg hp, div_eq_mul_one_div]
  exact mul_le_mul hx hp' hp ((abs_nonneg x).trans hx)

/-- The rest is not rounded by more than half of the last place of the numbers below one. -/
lemma weight_le (i : Interpolation l h t s a b) (hs : 1 / 2 < s) : t ≤ 1 - s + 1 / 2 ^ 54 := by
  obtain ⟨k, hlow, hhigh, rfl⟩ := exists_eq_div i.rest_representable hs i.rest_le_one
  have hw : Magnitude.Normalized ⟨k, -53⟩ :=
    ⟨(Nat.two_pow_pos 52).trans_le hlow, hhigh, by norm_num, .inl hlow⟩
  have hvalue : Magnitude.value ⟨k, -53⟩ = k / 2 ^ 53 := by
    rw [Magnitude.value]
    norm_num
    ring
  by_contra hlt
  have hle := i.rest_rounded.le_value_of_lt hw <| by
    rw [hvalue]
    norm_num at hlt ⊢
    linarith
  rw [hvalue] at hle
  linarith

/-- The sum is rounded to a finite number, however great both ends are. -/
theorem abs_add_lt (i : Interpolation l h t s a b) (hx : IsRounded (a + b) x) : |x| < 2 ^ 1024 := by
  have hl := abs_le_largest i.low_representable
  have hh := abs_le_largest i.high_representable
  refine hx.abs_lt_of_lt ((abs_add_le a b).trans_lt ?_)
  -- the weight above one half loses a last place in its product, which the other product may not fill
  rcases lt_or_ge (1 / 2) t with ht | ht
  · have hrest : s ≤ 1 - t + 1 / 2 ^ 54 := by
      have hbelow : |1 - t| ≤ 1 / 2 := by
        rw [abs_of_nonneg (sub_nonneg.mpr i.weight_le_one)]
        linarith
      have herror := (abs_le.mp (i.rest_rounded.abs_sub_le_of_abs_le hbelow le_rfl)).2
      linarith
    rw [add_comm]
    exact abs_add_abs_lt hh hl i.weight_representable ht i.weight_le_one i.rest_nonneg hrest
      i.high_rounded i.low_rounded
  rcases lt_or_ge (1 / 2) s with hs | hs
  · exact abs_add_abs_lt hl hh i.rest_representable hs i.rest_le_one i.weight_nonneg (i.weight_le hs)
      i.low_rounded i.high_rounded
  · -- both weights are one half
    have hlow := abs_le_half hl i.rest_nonneg hs i.low_rounded
    have hhigh := abs_le_half hh i.weight_nonneg ht i.high_rounded
    have hu : (0 : Rat) < 2 ^ (971 : Int) / 2 := half_pos (Magnitude.two_zpow_pos 971)
    calc |a| + |b| ≤ largest / 2 + largest / 2 := add_le_add hlow hhigh
      _ = largest := add_halves largest
      _ < largest + 2 ^ (971 : Int) / 2 := lt_add_of_pos_right largest hu

end Interpolation

end Number

end FunctionPlot
