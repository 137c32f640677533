/-
# Rounding to nearest

The model of doubles rounds with a significand, a round bit and a sticky bit.  They locate a
rational number between multiples of one half (`Locates`), and a shift to the right keeps what they
say.  The rounded significand is the nearest natural number, and of two equally near ones the even
one (`Nearest`); there is only one such number.
-/
import FunctionPlot.Number
import Mathlib.Algebra.Field.Rat
import Mathlib.Algebra.Order.Field.Basic
import Mathlib.Algebra.Order.Ring.Rat
import Mathlib.Tactic.FieldSimp
import Mathlib.Tactic.Linarith
import Mathlib.Tactic.NormNum
import Mathlib.Tactic.Ring

namespace FunctionPlot

namespace Rounding

open Float.Model Float.Model.UnpackedFloat

/-- A natural number is nearest to a rational number; of two equally near ones it is the even
one. -/
structure Nearest (n : Nat) (y : Rat) : Prop where
  lower : 2 * (n : Rat) - 1 ≤ 2 * y
  upper : 2 * y ≤ 2 * (n : Rat) + 1
  even : 2 * y = 2 * (n : Rat) - 1 ∨ 2 * y = 2 * (n : Rat) + 1 → n % 2 = 0

/-- The halves that are told by a significand and its round bit. -/
def halves (em : ExtendedMantissa) : Nat := 2 * em.mantissa + em.roundBit.toNat

/-- A significand with its two bits tells where a rational number is: at a multiple of one half, or
if the sticky bit is set, between two neighbouring ones. -/
def Locates (em : ExtendedMantissa) (y : Rat) : Prop :=
  if em.stickyBit then (halves em : Rat) < 2 * y ∧ 2 * y < halves em + 1 else 2 * y = halves em

variable {em : ExtendedMantissa} {y x : Rat} {m n : Nat} {e q : Int}

lemma Nearest.le_succ (hm : Nearest m y) (hn : Nearest n y) : m ≤ n + 1 := by
  have h : 2 * (m : Rat) - 1 ≤ 2 * n + 1 := hm.lower.trans hn.upper
  have h' : (m : Rat) ≤ n + 1 := by linarith
  exact_mod_cast h'

/-- Of two neighbours that are equally near only one is even. -/
lemma Nearest.ne_succ (hm : Nearest m y) (hn : Nearest n y) : m ≠ n + 1 := by
  rintro rfl
  have hlower := hm.lower
  push_cast at hlower
  have hy : 2 * y = 2 * (n : Rat) + 1 := le_antisymm hn.upper (by linarith)
  have heven := hn.even (.inr hy)
  have heven' := hm.even (.inl (by push_cast; linarith))
  omega

lemma Nearest.unique (hm : Nearest m y) (hn : Nearest n y) : m = n := by
  have h := hm.le_succ hn
  have h' := hn.le_succ hm
  have hne := hm.ne_succ hn
  have hne' := hn.ne_succ hm
  omega

lemma Nearest.le_of_le {k : Nat} (h : Nearest n y) (hy : y ≤ k) : n ≤ k := by
  have hlower := h.lower
  have hlt : (n : Rat) < (k + 1 : Nat) := by
    push_cast
    linarith
  exact Nat.lt_succ_iff.mp (by exact_mod_cast hlt)

lemma Nearest.le_of_ge {k : Nat} (h : Nearest n y) (hy : (k : Rat) ≤ y) : k ≤ n := by
  have hupper := h.upper
  have hlt : (k : Rat) < (n + 1 : Nat) := by
    push_cast
    linarith
  exact Nat.lt_succ_iff.mp (by exact_mod_cast hlt)

/-- Of two numbers the lesser one has no greater nearest natural number. -/
lemma Nearest.mono {x : Rat} (hm : Nearest m x) (hn : Nearest n y) (h : x ≤ y) : m ≤ n := by
  by_contra hlt
  have hle : ((n + 1 : Nat) : Rat) ≤ m := by exact_mod_cast Nat.lt_of_not_le hlt
  push_cast at hle
  have hlower := hm.lower
  have hupper := hn.upper
  -- both lie half way between the two natural numbers, of which only one is even
  have hx : 2 * x = 2 * (m : Rat) - 1 := by linarith
  have hy : 2 * y = 2 * (n : Rat) + 1 := by linarith
  have hsucc : (m : Rat) = (n + 1 : Nat) := by
    push_cast
    linarith
  have hsucc' : m = n + 1 := by exact_mod_cast hsucc
  have heven := hm.even (.inl hx)
  have heven' := hn.even (.inr hy)
  omega

lemma Locates.le (h : Locates em y) : (em.mantissa : Rat) ≤ y := by
  have hhalves : 2 * (em.mantissa : Rat) ≤ halves em := by
    rw [halves]
    push_cast
    have hbit : (0 : Rat) ≤ (em.roundBit.toNat : Rat) := Nat.cast_nonneg _
    linarith
  unfold Locates at h
  split at h <;> [obtain ⟨h, -⟩ := h; skip] <;> linarith

lemma Locates.lt_succ (h : Locates em y) : y < em.mantissa + 1 := by
  have hhalves : (halves em : Rat) ≤ 2 * em.mantissa + 1 := by
    rw [halves]
    have hbit : em.roundBit.toNat ≤ 1 := Bool.toNat_le _
    exact_mod_cast Nat.add_le_add_left hbit _
  unfold Locates at h
  split at h <;> [obtain ⟨-, h⟩ := h; skip] <;> linarith

lemma Locates.nearest (h : Locates em y) : Nearest em.roundedMantissa y := by
  obtain ⟨m, roundBit, stickyBit⟩ := em
  cases roundBit <;> cases stickyBit
  · have hy : 2 * y = 2 * m := by simpa [Locates, halves] using h
    change Nearest m y
    exact ⟨by linarith, by linarith, fun h => by rcases h with h | h <;> linarith⟩
  · have hy : 2 * (m : Rat) < 2 * y ∧ 2 * y < 2 * m + 1 := by simpa [Locates, halves] using h
    change Nearest m y
    exact ⟨by linarith, by linarith, fun h => by rcases h with h | h <;> linarith⟩
  · have hy : 2 * y = 2 * m + 1 := by simpa [Locates, halves] using h
    change Nearest (m + m % 2) y
    rcases Nat.mod_two_eq_zero_or_one m with hm | hm
    · rw [hm, Nat.add_zero]
      exact ⟨by linarith, by linarith, fun _ => hm⟩
    · rw [hm]
      exact ⟨by push_cast; linarith, by push_cast; linarith, fun _ => by omega⟩
  · have hy : 2 * (m : Rat) + 1 < 2 * y ∧ 2 * y < 2 * m + 1 + 1 := by
      simpa [Locates, halves] using h
    change Nearest (m + 1) y
    refine ⟨by push_cast; linarith, by push_cast; linarith, fun h => ?_⟩
    push_cast at h
    rcases h with h | h <;> linarith

/-- A shift by one keeps what is told: the bits that fall out are remembered by the sticky bit. -/
lemma Locates.shiftRightOne (h : Locates em y) : Locates em.shiftRightOne (y / 2) := by
  have hhalves : halves em.shiftRightOne = em.mantissa := by
    have hbit : (em.mantissa % 2 != 0).toNat = em.mantissa % 2 := by
      rcases Nat.mod_two_eq_zero_or_one em.mantissa with hm | hm <;> simp [hm]
    rw [halves, ExtendedMantissa.shiftRightOne, hbit, Nat.div_add_mod]
  have hle := h.le
  have hlt := h.lt_succ
  unfold Locates
  rw [hhalves, mul_div_cancel₀ y (by norm_num : (2 : Rat) ≠ 0)]
  change if em.roundBit || em.stickyBit then _ else _
  obtain ⟨m, roundBit, stickyBit⟩ := em
  cases roundBit <;> cases stickyBit <;> simp_all [Locates, halves] <;> linarith

lemma Locates.shiftRight (h : Locates em (x / 2 ^ e)) (n : Nat) :
    Locates (em >>> n) (x / 2 ^ (e + n)) := by
  change Locates (n.repeat ExtendedMantissa.shiftRightOne em) _
  induction n with
  | zero =>
    rw [Nat.repeat]
    simpa using h
  | succ n ih =>
    have hdiv : x / 2 ^ (e + (n + 1 : Nat)) = x / 2 ^ (e + n) / 2 := by
      rw [div_div, Nat.cast_succ, ← add_assoc, zpow_add_one₀ (by norm_num)]
    rw [Nat.repeat, hdiv]
    exact ih.shiftRightOne

lemma locates_shiftToExponent {accuracy : Accuracy} {t : Int}
    (h : Locates (.ofMantissaAndAccuracy m accuracy) (x / 2 ^ e)) (he : e ≤ t) :
    ∃ em, shiftToExponent m e accuracy t = (em, t) ∧ Locates em (x / 2 ^ t) := by
  have hamount : e + ((t - e).toNat : Int) = t := by omega
  have hshift := h.shiftRight (t - e).toNat
  rw [hamount] at hshift
  exact ⟨_, by rw [shiftToExponent, hamount], hshift⟩

/-- An exact significand. -/
lemma locates_exact (m : Nat) : Locates (.ofMantissaAndAccuracy m .exact) m := by
  simp [Locates, halves, ExtendedMantissa.ofMantissaAndAccuracy]

/-- The quotient and the remainder of a division tell where the exact quotient is. -/
lemma locates_div (m : Nat) {n : Nat} (hn : 0 < n) :
    Locates (.ofMantissaAndAccuracy (m / n) (accuracyOfFraction (m % n) n)) (m / n : Rat) := by
  have hn' : (0 : Rat) < n := by exact_mod_cast hn
  have hdiv : (m : Rat) / n = (m / n : Nat) + (m % n : Nat) / n := by
    rw [eq_comm, ← mul_right_inj' hn'.ne', mul_add, mul_div_cancel₀ _ hn'.ne',
      mul_div_cancel₀ _ hn'.ne']
    exact_mod_cast Nat.div_add_mod m n
  rw [hdiv]
  have hlt := Nat.mod_lt m hn
  generalize m / n = k
  generalize m % n = r at hlt ⊢
  unfold accuracyOfFraction
  split
  · rename_i hr
    simpa [hr] using locates_exact k
  · rename_i hr
    have hr' : (0 : Rat) < r / n := div_pos (by exact_mod_cast Nat.pos_of_ne_zero hr) hn'
    have hlt' : (r : Rat) / n < 1 := by
      rw [div_lt_one hn']
      exact_mod_cast hlt
    cases hcompare : compare (2 * r) n with
    | lt =>
      have h : (r : Rat) / n < 1 / 2 := by
        rw [div_lt_div_iff₀ hn' (by norm_num)]
        exact_mod_cast (by have := Nat.compare_eq_lt.mp hcompare; omega : r * 2 < 1 * n)
      simp [Locates, halves, ExtendedMantissa.ofMantissaAndAccuracy]
      constructor <;> linarith
    | eq =>
      have h : (r : Rat) / n = 1 / 2 := by
        rw [div_eq_div_iff hn'.ne' (by norm_num)]
        exact_mod_cast (by have := Nat.compare_eq_eq.mp hcompare; omega : r * 2 = 1 * n)
      simp [Locates, halves, ExtendedMantissa.ofMantissaAndAccuracy]
      linarith
    | gt =>
      have h : 1 / 2 < (r : Rat) / n := by
        rw [div_lt_div_iff₀ (by norm_num) hn']
        exact_mod_cast (by have := Nat.compare_eq_gt.mp hcompare; omega : 1 * n < r * 2)
      simp [Locates, halves, ExtendedMantissa.ofMantissaAndAccuracy]
      constructor <;> linarith

end Rounding

end FunctionPlot
