/-
# The number nearest to a decimal

A decimal in the rounding interval of a number is read as this number (`Decimal.nearest_unpacked`).
The significand found by the first shift has the exponent of the number, or it is `2 ^ 53` with the
exponent below; then the second shift moves it to the start of the next binade.
-/
import FunctionPlot.Number.Shortest
import FunctionPlot.Proofs.Number.Rounding
import Mathlib

namespace FunctionPlot

open Float.Model Float.Model.UnpackedFloat Rounding

namespace Magnitude

/-- The significand and the exponent of a double. -/
structure Canonical (v : Magnitude) : Prop where
  pos : 0 < v.significand
  lt : v.significand < 2 ^ 53
  le_exponent : -1074 ≤ v.exponent
  exponent_le : v.exponent ≤ 971
  normal : 2 ^ 52 ≤ v.significand ∨ v.exponent = -1074

/-- The significand and the exponent of a number rounded to 53 bits, however great it is. -/
structure Normalized (v : Magnitude) : Prop where
  pos : 0 < v.significand
  lt : v.significand < 2 ^ 53
  le_exponent : -1074 ≤ v.exponent
  normal : 2 ^ 52 ≤ v.significand ∨ v.exponent = -1074

variable {v : Magnitude} {x : Rat}

lemma Canonical.normalized (h : v.Canonical) : v.Normalized :=
  ⟨h.pos, h.lt, h.le_exponent, h.normal⟩

lemma two_zpow_pos (e : Int) : (0 : Rat) < 2 ^ e := zpow_pos (by norm_num) e

lemma half_eq (e : Int) : (2 : Rat) ^ (e - 1) = 2 ^ e / 2 := zpow_sub_one₀ (by norm_num) e

lemma quarter_eq (e : Int) : (2 : Rat) ^ (e - 2) = 2 ^ e / 4 := by
  rw [zpow_sub₀ (by norm_num)]
  norm_num

lemma nearest_of_contains (h : v.rounding.Contains x) :
    Nearest v.significand (x / 2 ^ v.exponent) := by
  obtain ⟨m, q⟩ := v
  have hu := two_zpow_pos q
  obtain ⟨y, rfl⟩ : ∃ y : Rat, x = y * 2 ^ q := ⟨x / 2 ^ q, (div_mul_cancel₀ x hu.ne').symm⟩
  have hlow : (m - 1 / 2 : Rat) * 2 ^ q ≤ (rounding ⟨m, q⟩).low := by
    simp only [rounding, value, half_eq, quarter_eq]
    split <;> linarith
  have hhigh : (rounding ⟨m, q⟩).high = (m + 1 / 2 : Rat) * 2 ^ q := by
    simp only [rounding, value, half_eq]
    ring
  rw [mul_div_cancel_right₀ y hu.ne']
  change Nearest m y
  rcases h with ⟨h, h'⟩ | ⟨hclosed, h, h'⟩
  · have hy := lt_of_mul_lt_mul_right (hlow.trans_lt h) hu.le
    have hy' := lt_of_mul_lt_mul_right (hhigh ▸ h') hu.le
    exact ⟨by linarith, by linarith, fun htie => by rcases htie with htie | htie <;> linarith⟩
  · have hy := le_of_mul_le_mul_right (hlow.trans h) hu
    have hy' := le_of_mul_le_mul_right (hhigh ▸ h') hu
    exact ⟨by linarith, by linarith, fun _ => by simpa [rounding] using hclosed⟩

/-- Below the start of a binade the rounding interval reaches only half as far. -/
lemma quarter_of_contains (h : v.rounding.Contains x) (hm : v.significand = 2 ^ 52)
    (hq : -1074 < v.exponent) : 2 ^ 54 - 1 ≤ 4 * (x / 2 ^ v.exponent) := by
  obtain ⟨m, q⟩ := v
  simp only at hm hq
  subst hm
  have hu := two_zpow_pos q
  have hlow : (rounding ⟨2 ^ 52, q⟩).low = (2 ^ 52 - 1 / 4 : Rat) * 2 ^ q := by
    rw [rounding, if_pos ⟨rfl, hq⟩, quarter_eq, value]
    push_cast
    ring
  have hx : (2 ^ 52 - 1 / 4 : Rat) * 2 ^ q ≤ x := by
    rw [← hlow]
    rcases h with h | h
    · exact h.1.le
    · exact h.2.1
  have hy := (le_div_iff₀ hu).mpr hx
  linarith

/-! ### Powers of two around a number

All bounds are powers of two, so that only exponents are compared. -/

lemma lt_of_two_zpow_le {a b : Int} (ha : (2 : Rat) ^ a ≤ x) (hb : x < 2 ^ b) : a < b :=
  (zpow_lt_zpow_iff_right₀ (by norm_num)).mp (ha.trans_lt hb)

lemma two_zpow_add (e : Int) (k : Nat) : (2 : Rat) ^ (e + k) = 2 ^ k * 2 ^ e := by
  rw [zpow_add₀ (by norm_num), zpow_natCast, mul_comm]

lemma lt_two_zpow_of_lt {m : Nat} {e : Int} (h : x / 2 ^ e < m + 1) :
    x < 2 ^ (m.log2 + 1 + e) := by
  have hlog : ((m + 1 : Nat) : Rat) ≤ (2 : Rat) ^ (m.log2 + 1) := by
    exact_mod_cast Nat.lt_log2_self
  rw [div_lt_iff₀ (two_zpow_pos e)] at h
  rw [zpow_add₀ (by norm_num)]
  refine h.trans_le (mul_le_mul_of_nonneg_right ?_ (two_zpow_pos e).le)
  exact_mod_cast hlog

lemma two_zpow_le_of_le {m : Nat} {e : Int} (hm : 0 < m) (h : (m : Rat) ≤ x / 2 ^ e) :
    (2 : Rat) ^ (m.log2 + e) ≤ x := by
  rw [le_div_iff₀ (two_zpow_pos e)] at h
  rw [zpow_add₀ (by norm_num)]
  refine le_trans (mul_le_mul_of_nonneg_right ?_ (two_zpow_pos e).le) h
  exact_mod_cast Nat.log2_self_le hm.ne'

lemma lt_two_zpow_of_contains (hv : v.Canonical) (h : v.rounding.Contains x) :
    x < 2 ^ (v.exponent + (53 : Nat)) := by
  have hs : ((v.significand + 1 : Nat) : Rat) ≤ ((2 ^ 53 : Nat) : Rat) := by exact_mod_cast hv.lt
  push_cast at hs
  rw [two_zpow_add, ← div_lt_iff₀ (two_zpow_pos v.exponent)]
  linarith [(nearest_of_contains h).upper]

lemma two_zpow_le_of_contains (hv : v.Canonical) (h : v.rounding.Contains x)
    (hq : v.exponent ≠ -1074) : (2 : Rat) ^ (v.exponent + (51 : Nat)) ≤ x := by
  have hs : ((2 ^ 52 : Nat) : Rat) ≤ v.significand := by exact_mod_cast hv.normal.resolve_right hq
  push_cast at hs
  rw [two_zpow_add, ← le_div_iff₀ (two_zpow_pos v.exponent)]
  linarith [(nearest_of_contains h).lower]

/-- A number whose rounding interval reaches below its binade is the first of the binade. -/
lemma significand_eq_of_lt (hv : v.Canonical) (h : v.rounding.Contains x) (hq : v.exponent ≠ -1074)
    (hx : x / 2 ^ v.exponent < 2 ^ 52) : v.significand = 2 ^ 52 := by
  have hlt : (v.significand : Rat) < (2 ^ 52 + 1 : Nat) := by
    push_cast
    linarith [(nearest_of_contains h).lower]
  have hlt' : v.significand < 2 ^ 52 + 1 := by exact_mod_cast hlt
  have hnormal := hv.normal.resolve_right hq
  omega

/-- The first shift goes to the exponent of the number, unless the number is the first one of its
binade and `x` lies below it. -/
lemma target_of_contains (hv : v.Canonical) (h : v.rounding.Contains x) {m : Nat} {e : Int}
    (hle : (m : Rat) ≤ x / 2 ^ e) (hlt : x / 2 ^ e < m + 1)
    (he : e ≤ Format.binary64.targetExponent (totalExponent m e)) :
    Format.binary64.targetExponent (totalExponent m e) = v.exponent ∨
      Format.binary64.targetExponent (totalExponent m e) = v.exponent - 1 ∧
        -1074 < v.exponent ∧ v.significand = 2 ^ 52 ∧ x / 2 ^ v.exponent < 2 ^ 52 := by
  have htarget : Format.binary64.targetExponent (totalExponent m e)
      = max (m.log2 + 1 + e - 53) (-1074) := rfl
  rw [htarget] at he ⊢
  have hx := lt_two_zpow_of_lt hlt
  have hq := hv.le_exponent
  rcases Nat.eq_zero_or_pos m with rfl | hm
  · -- no bit was found, which is so for the smallest numbers only
    have hx' : x < 2 ^ e := by
      rw [div_lt_iff₀ (two_zpow_pos e)] at hlt
      simpa using hlt
    have hq' : v.exponent = -1074 := by
      by_contra hq'
      have := lt_of_two_zpow_le (two_zpow_le_of_contains hv h hq') hx'
      simp at he
      omega
    simp at he ⊢
    omega
  have hx' := two_zpow_le_of_le hm hle
  have hlog := lt_of_two_zpow_le hx' (lt_two_zpow_of_contains hv h)
  rcases eq_or_ne v.exponent (-1074) with hq' | hq'
  · left
    omega
  have hlog' := lt_of_two_zpow_le (two_zpow_le_of_contains hv h hq') hx
  rcases lt_or_ge x (2 ^ (v.exponent + (52 : Nat))) with hbelow | habove
  · have hlog'' := lt_of_two_zpow_le hx' hbelow
    rw [two_zpow_add, ← div_lt_iff₀ (two_zpow_pos v.exponent)] at hbelow
    right
    refine ⟨?_, ?_, significand_eq_of_lt hv h hq' hbelow, hbelow⟩ <;> omega
  · have hlog'' := lt_of_two_zpow_le habove hx
    left
    omega

/-- A significand that has its place stays there. -/
lemma shift_normalized (hv : v.Normalized) :
    shiftToTargetExponent Format.binary64 v.significand v.exponent .exact
      = (.ofMantissaAndAccuracy v.significand .exact, v.exponent) := by
  obtain ⟨m, q⟩ := v
  obtain ⟨hpos, hm, hq, hnormal⟩ := hv
  simp only at hpos hm hq hnormal ⊢
  have hlog : m.log2 < 53 := (Nat.log2_lt hpos.ne').mpr hm
  have hlog' : 2 ^ 52 ≤ m → 52 ≤ m.log2 := (Nat.le_log2 hpos.ne').mpr
  have htarget : Format.binary64.targetExponent (totalExponent m q) = q := by
    change max ((m.log2 : Int) + 1 + q - 53) (-1074) = q
    rcases hnormal with hnormal | hnormal
    · have := hlog' hnormal
      omega
    · omega
  rw [shiftToTargetExponent, htarget, shiftToExponent, Int.sub_self]
  simp
  rfl

/-- A significand that was rounded up to the next binade is shifted there. -/
lemma shift_carried {q : Int} (hq : -1074 < q) :
    shiftToTargetExponent Format.binary64 (2 ^ 53) (q - 1) .exact
      = (.ofMantissaAndAccuracy (2 ^ 52) .exact, q) := by
  have htarget : Format.binary64.targetExponent (totalExponent (2 ^ 53) (q - 1)) = q := by
    change max (((2 ^ 53 : Nat).log2 : Int) + 1 + (q - 1) - 53) (-1074) = q
    rw [Nat.log2_two_pow]
    omega
  have hamount : (q - (q - 1)).toNat = 1 := by omega
  rw [shiftToTargetExponent, htarget, shiftToExponent, hamount]
  simp only [Int.cast_ofNat_Int, Prod.mk.injEq]
  exact ⟨rfl, by omega⟩

lemma roundWithAccuracy_of_shifts {sign : Sign} {m : Nat} {e e₁ e₂ : Int} {accuracy : Accuracy}
    {em em' : ExtendedMantissa}
    (h₁ : shiftToTargetExponent Format.binary64 m e accuracy = (em, e₁))
    (h₂ : shiftToTargetExponent Format.binary64 em.roundedMantissa e₁ .exact = (em', e₂))
    (hpos : 0 < em'.mantissa) :
    roundWithAccuracy Format.binary64 sign m e accuracy = .finite sign em'.mantissa e₂ hpos := by
  simp only [roundWithAccuracy, h₁, h₂]
  rw [dif_neg hpos.ne']

/-- A number of the rounding interval below the start of a binade is rounded up to it. -/
lemma nearest_carried (h : v.rounding.Contains x) (hs : v.significand = 2 ^ 52)
    (hq : -1074 < v.exponent) (hx : x / 2 ^ v.exponent < 2 ^ 52) :
    Nearest (2 ^ 53) (x / 2 ^ (v.exponent - 1)) := by
  have hquarter := quarter_of_contains h hs hq
  have hdouble : x / 2 ^ (v.exponent - 1) = 2 * (x / 2 ^ v.exponent) := by
    rw [half_eq, div_div_eq_mul_div, mul_comm x, mul_div_assoc]
  rw [hdouble]
  refine ⟨?_, ?_, fun _ => by norm_num⟩
  · push_cast
    linarith
  · push_cast
    linarith

/-- A number that was located far enough is rounded to the number in whose rounding interval it
is. -/
lemma roundWithAccuracy_eq (hv : v.Canonical) (h : v.rounding.Contains x) (sign : Sign) {m : Nat}
    {e : Int} {accuracy : Accuracy}
    (hlocates : Locates (.ofMantissaAndAccuracy m accuracy) (x / 2 ^ e))
    (he : e ≤ Format.binary64.targetExponent (totalExponent m e)) :
    roundWithAccuracy Format.binary64 sign m e accuracy
      = .finite sign v.significand v.exponent hv.pos := by
  have hmantissa : (ExtendedMantissa.ofMantissaAndAccuracy m accuracy).mantissa = m := by
    rcases accuracy with _ | _ | _ | _ <;> rfl
  have htarget :=
    target_of_contains hv h (hmantissa ▸ hlocates.le) (hmantissa ▸ hlocates.lt_succ) he
  obtain ⟨em, hem, hem'⟩ := locates_shiftToExponent hlocates he
  have hnearest := hem'.nearest
  rcases htarget with htarget | ⟨htarget, hq, hs, hx⟩
  · -- the significand is the right one after the first shift, and the second does nothing
    have h₁ : shiftToTargetExponent Format.binary64 m e accuracy = (em, v.exponent) := by
      rw [shiftToTargetExponent, hem, htarget]
    rw [htarget] at hnearest
    have hrounded := hnearest.unique (nearest_of_contains h)
    have h₂ := shift_normalized hv.normalized
    rw [← hrounded] at h₂
    rw [roundWithAccuracy_of_shifts h₁ h₂ (by rw [hrounded]; exact hv.pos)]
    simp only [hrounded]
    rfl
  · -- the significand is rounded up to `2 ^ 53`, and the second shift moves it to the next binade
    have h₁ : shiftToTargetExponent Format.binary64 m e accuracy = (em, v.exponent - 1) := by
      rw [shiftToTargetExponent, hem, htarget]
    rw [htarget] at hnearest
    have hrounded := hnearest.unique (nearest_carried h hs hq hx)
    have h₂ := shift_carried hq
    rw [← hrounded] at h₂
    rw [roundWithAccuracy_of_shifts h₁ h₂ (by decide)]
    simp only [hs]
    rfl

end Magnitude

namespace Decimal

variable {v : Magnitude} {d : Decimal}

/-- A product by a power of ten has bits enough. -/
lemma le_target_mul {n : Nat} (hn : 0 < n) (k : Nat) :
    (-53 : Int) ≤ Format.binary64.targetExponent (totalExponent (n <<< 53 * 10 ^ k) (-53)) := by
  have hpow : 2 ^ 52 ≤ n <<< 53 * 10 ^ k := by
    rw [Nat.shiftLeft_eq]
    have h : 1 ≤ 10 ^ k := Nat.one_le_pow _ _ (by norm_num)
    nlinarith
  have hlog := (Nat.le_log2 (by omega)).mpr hpow
  change (-53 : Int) ≤ max (((n <<< 53 * 10 ^ k).log2 : Int) + 1 + -53 - 53) (-1074)
  omega

/-- The quotient of a division has bits enough, or it is in the place of the smallest numbers. -/
lemma exists_divCore_eq {n k : Nat} (hn : 0 < n) (hk : 0 < k) (e p : Int) : ∃ t : Int,
    t ≤ e - p ∧
    t ≤ Format.binary64.targetExponent (totalExponent ((n <<< (e - p - t).toNat) / k) t) ∧
    divCore Format.binary64 n e k p = ((n <<< (e - p - t).toNat) / k, t,
      accuracyOfFraction ((n <<< (e - p - t).toNat) % k) k) := by
  obtain ⟨t, ht⟩ : ∃ t, t = min (e - p)
    (Format.binary64.targetExponent (totalExponent n e - totalExponent k p)) := ⟨_, rfl⟩
  refine ⟨t, by omega, ?_, ?_⟩
  · change t = min (e - p) (max ((n.log2 + 1 + e : Int) - (k.log2 + 1 + p) - 53) (-1074)) at ht
    change t ≤ max ((((n <<< (e - p - t).toNat) / k).log2 : Int) + 1 + t - 53) (-1074)
    rcases Int.lt_or_le (-1074) t with h | h
    · -- the quotient of the shifted `n` by `k` has 53 bits
      have hpow : 2 ^ 52 ≤ (n <<< (e - p - t).toNat) / k := by
        rw [Nat.le_div_iff_mul_le hk, Nat.shiftLeft_eq]
        calc 2 ^ 52 * k ≤ 2 ^ 52 * 2 ^ (k.log2 + 1) := Nat.mul_le_mul_left _ Nat.lt_log2_self.le
          _ = 2 ^ (52 + (k.log2 + 1)) := (Nat.pow_add _ _ _).symm
          _ ≤ 2 ^ (n.log2 + (e - p - t).toNat) := Nat.pow_le_pow_right (by norm_num) (by omega)
          _ = 2 ^ n.log2 * 2 ^ (e - p - t).toNat := Nat.pow_add _ _ _
          _ ≤ n * 2 ^ (e - p - t).toNat := Nat.mul_le_mul_right _ (Nat.log2_self_le hn.ne')
      have hlog := (Nat.le_log2 (by omega)).mpr hpow
      omega
    · omega
  · simp only [divCore, ← ht]

/-- The quotient of two natural numbers. -/
lemma exists_div_eq {n k : Nat} (hn : 0 < n) (hk : 0 < k) : ∃ t : Int, t ≤ 0 ∧
    t ≤ Format.binary64.targetExponent (totalExponent ((n <<< (-t).toNat) / k) t) ∧
    div Format.binary64 (.finite .positive n 0 hn) (.finite .positive k 0 hk)
      = roundWithAccuracy Format.binary64 .positive ((n <<< (-t).toNat) / k) t
          (accuracyOfFraction ((n <<< (-t).toNat) % k) k) := by
  obtain ⟨t, ht, htarget, hcore⟩ := exists_divCore_eq hn hk 0 0
  rw [Int.sub_self, Int.zero_sub] at htarget hcore
  refine ⟨t, ht, htarget, ?_⟩
  simp only [UnpackedFloat.div, hcore]
  rfl

/-- A decimal in a rounding interval is neither too great nor too small to be read. -/
lemma bounds_of_contains (hv : v.Canonical) (h : v.rounding.Contains d.value) :
    0 < d.digits ∧ d.exponent ≤ 2048 ∧ -(2048 + d.digits.log2 : Int) ≤ d.exponent := by
  have hnearest := Magnitude.nearest_of_contains h
  have hu := Magnitude.two_zpow_pos v.exponent
  have hpos : (1 : Rat) ≤ v.significand := by exact_mod_cast hv.pos
  have hlower : (2 : Rat) ^ (v.exponent - 1) ≤ d.value := by
    rw [Magnitude.half_eq]
    have := (le_div_iff₀ hu).mp (show (1 / 2 : Rat) ≤ d.value / 2 ^ v.exponent by
      linarith [hnearest.lower])
    linarith
  have hupper := Magnitude.lt_two_zpow_of_contains hv h
  have hdigits : 0 < d.digits := by
    by_contra hzero
    have hvalue : d.value = 0 := by
      rw [value, Nat.eq_zero_of_not_pos hzero, Nat.cast_zero, zero_mul]
    linarith [Magnitude.two_zpow_pos (v.exponent - 1)]
  have hdigits' : (1 : Rat) ≤ d.digits := by exact_mod_cast hdigits
  have hten := zpow_pos (by norm_num : (0 : Rat) < 10) d.exponent
  have hle := hv.le_exponent
  have hge := hv.exponent_le
  refine ⟨hdigits, ?_, ?_⟩
  · -- powers of ten are further from one than powers of two, to both sides
    by_contra hgreat
    have hpow : (2 : Rat) ^ d.exponent ≤ 10 ^ d.exponent :=
      zpow_le_zpow_left₀ (by omega) (by norm_num) (by norm_num)
    have hvalue : (2 : Rat) ^ d.exponent ≤ d.value := by
      rw [value]
      nlinarith
    have := Magnitude.lt_of_two_zpow_le hvalue hupper
    omega
  · by_contra hsmall
    have hpow : (10 : Rat) ^ d.exponent ≤ 2 ^ d.exponent := by
      have hinv : (2 : Rat) ^ (-d.exponent) ≤ 10 ^ (-d.exponent) :=
        zpow_le_zpow_left₀ (by omega) (by norm_num) (by norm_num)
      rwa [zpow_neg, zpow_neg, inv_le_inv₀ (Magnitude.two_zpow_pos _) hten] at hinv
    have hlog : (d.digits : Rat) < 2 ^ ((d.digits.log2 + 1 : Nat) : Int) := by
      exact_mod_cast Nat.lt_log2_self
    have hvalue : d.value < 2 ^ (((d.digits.log2 + 1 : Nat) : Int) + d.exponent) := by
      rw [value, zpow_add₀ (by norm_num)]
      nlinarith
    have := Magnitude.lt_of_two_zpow_le hlower hvalue
    omega

lemma value_mul {k : Nat} (hk : d.exponent = k) :
    d.value / 2 ^ (-53 : Int) = ((d.digits <<< 53 * 10 ^ k : Nat) : Rat) := by
  rw [value, hk, Nat.shiftLeft_eq, zpow_natCast, zpow_neg, div_inv_eq_mul]
  push_cast
  norm_cast
  ring

lemma value_div {k n : Nat} {t : Int} (hk : d.exponent = -k) (hn : t = -n) :
    d.value / 2 ^ t = ((d.digits <<< n : Nat) : Rat) / ((10 ^ k : Nat) : Rat) := by
  rw [value, hk, hn, Nat.shiftLeft_eq, zpow_neg, zpow_neg, zpow_natCast, zpow_natCast,
    div_inv_eq_mul]
  push_cast
  ring

/-- A decimal in the rounding interval of a number is read as this number. -/
theorem nearest_unpacked (hv : v.Canonical) (h : v.rounding.Contains d.value) :
    UnpackedFloat.ofScientific Format.binary64 d.digits d.exponent
      = .finite .positive v.significand v.exponent hv.pos := by
  obtain ⟨hdigits, hgreat, hsmall⟩ := bounds_of_contains hv h
  have hgreat' : ¬ d.exponent > 2 ^ 11 := by norm_num; omega
  have hsmall' : ¬ d.exponent < -((2 ^ 11 : Int) + d.digits.log2) := by norm_num; omega
  rw [UnpackedFloat.ofScientific, dif_neg hdigits.ne', if_neg hgreat', if_neg hsmall']
  split
  · rename_i hexponent
    obtain ⟨k, hk⟩ := Int.eq_ofNat_of_zero_le hexponent
    have hlocates := locates_exact (d.digits <<< 53 * 10 ^ k)
    rw [← value_mul hk] at hlocates
    simp only [hk, Int.toNat_natCast]
    exact Magnitude.roundWithAccuracy_eq hv h _ hlocates (le_target_mul hdigits k)
  · rename_i hexponent
    obtain ⟨k, hk⟩ := Int.eq_ofNat_of_zero_le (by omega : 0 ≤ -d.exponent)
    have hten : 0 < 10 ^ k := Nat.pow_pos (by norm_num)
    obtain ⟨t, ht, htarget, hdiv⟩ := exists_div_eq hdigits hten
    have hlocates := locates_div (d.digits <<< (-t).toNat) hten
    rw [← value_div (t := t) (by omega : d.exponent = -k) (by omega)] at hlocates
    simp only [hk, Int.toNat_natCast]
    rw [hdiv]
    exact Magnitude.roundWithAccuracy_eq hv h _ hlocates htarget

end Decimal

end FunctionPlot
