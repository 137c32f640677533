/-
# The order of numbers

Every number that is not `NaN` has a level: the rational number that it stands for, or one of two
infinite ends.  Numbers are compared by their levels (`Number.le_iff`, `Number.lt_iff`).  Finite
magnitudes are compared by their exponents first, which is right because they are normalized.
-/
import FunctionPlot.Proofs.Number.RoundTrip
import Mathlib.Data.Ordering.Lemmas
import Mathlib.Order.Compare

namespace FunctionPlot

namespace Magnitude

variable {v w : Magnitude}

lemma Normalized.value_pos (hv : v.Normalized) : 0 < v.value := by
  have hpos : (0 : Rat) < v.significand := by exact_mod_cast hv.pos
  exact mul_pos hpos (two_zpow_pos v.exponent)

/-- A magnitude is below the least significand of full length with a greater exponent. -/
lemma Normalized.value_lt (hv : v.Normalized) {t : Int} (h : v.exponent < t) :
    v.value < 2 ^ 52 * 2 ^ t := by
  have hlt : (v.significand : Rat) < ((2 ^ 53 : Nat) : Rat) := by exact_mod_cast hv.lt
  push_cast at hlt
  calc v.value < 2 ^ 53 * 2 ^ v.exponent := mul_lt_mul_of_pos_right hlt (two_zpow_pos _)
    _ = 2 ^ 52 * 2 ^ (v.exponent + (1 : Nat)) := by
      rw [two_zpow_add]
      ring
    _ ≤ 2 ^ 52 * 2 ^ t :=
      mul_le_mul_of_nonneg_left (zpow_le_zpow_right₀ (by norm_num) (by omega)) (by norm_num)

/-- A greater exponent makes a greater number. -/
lemma Normalized.value_lt_of_exponent_lt (hv : v.Normalized) (hw : w.Normalized)
    (h : v.exponent < w.exponent) : v.value < w.value := by
  have hnormal : 2 ^ 52 ≤ w.significand := hw.normal.resolve_right fun hleast => by
    have := hv.le_exponent
    omega
  have hle : ((2 ^ 52 : Nat) : Rat) ≤ w.significand := by exact_mod_cast hnormal
  push_cast at hle
  exact (hv.value_lt h).trans_le (mul_le_mul_of_nonneg_right hle (two_zpow_pos _).le)

/-- Normalized magnitudes are compared by their exponents and then by their significands. -/
lemma Normalized.compare_eq (hv : v.Normalized) (hw : w.Normalized) :
    (compare v.exponent w.exponent).then (compare v.significand w.significand)
      = cmp v.value w.value := by
  rcases lt_trichotomy v.exponent w.exponent with h | h | h
  · rw [compare_lt_iff_lt.mpr h, (cmp_eq_lt_iff _ _).mpr (hv.value_lt_of_exponent_lt hw h)]
    rfl
  · have hu := two_zpow_pos w.exponent
    rw [compare_eq_iff_eq.mpr h, value, value, h]
    change compare v.significand w.significand = _
    rcases lt_trichotomy v.significand w.significand with h' | h' | h'
    · rw [compare_lt_iff_lt.mpr h', eq_comm, cmp_eq_lt_iff]
      exact mul_lt_mul_of_pos_right (by exact_mod_cast h') hu
    · rw [compare_eq_iff_eq.mpr h', h', cmp_self_eq_eq]
    · rw [compare_gt_iff_gt.mpr h', eq_comm, cmp_eq_gt_iff]
      exact mul_lt_mul_of_pos_right (by exact_mod_cast h') hu
  · rw [compare_gt_iff_gt.mpr h, (cmp_eq_gt_iff _ _).mpr (hw.value_lt_of_exponent_lt hv h)]
    rfl

end Magnitude

namespace Number

open Float.Model

/-- The place of an unpacked number among the rational numbers with two infinite ends. -/
def unpackedLevel : UnpackedFloat → WithBot (WithTop Rat)
  | .infinity .positive => ⊤
  | .infinity .negative => ⊥
  | .notANumber => ⊤
  | .zero _ => ((0 : Rat) : WithTop Rat)
  | .finite .positive m q _ => ((Magnitude.value ⟨m, q⟩ : Rat) : WithTop Rat)
  | .finite .negative m q _ => ((-Magnitude.value ⟨m, q⟩ : Rat) : WithTop Rat)

/-- The place of a number among the rational numbers with two infinite ends. -/
def level (v : Float) : WithBot (WithTop Rat) := unpackedLevel v.toModel.unpack

variable {a b v w : Float} {f g : UnpackedFloat} {r s : Rat}

/-! ### Comparing levels -/

lemma cmp_coe (r s : Rat) :
    cmp ((r : WithTop Rat) : WithBot (WithTop Rat)) (s : WithTop Rat) = cmp r s := by
  simp only [cmp, cmpUsing, WithBot.coe_lt_coe, WithTop.coe_lt_coe]

lemma cmp_neg (r s : Rat) : cmp (-r) (-s) = (cmp r s).swap := by
  rw [cmp_swap]
  simp only [cmp, cmpUsing, neg_lt_neg_iff]

/-- The magnitude of an unpacked number is normalized if it has one. -/
def IsNormalized (f : UnpackedFloat) : Prop :=
  ∀ s m q hpos, f = .finite s m q hpos → (⟨m, q⟩ : Magnitude).Normalized

lemma isNormalized_unpack (v : Float) : IsNormalized v.toModel.unpack :=
  fun _ _ _ _ h => (canonical_magnitude h).normalized

/-- Unpacked numbers are compared by their levels. -/
lemma compare_eq (hf : ¬ f.isNaN) (hg : ¬ g.isNaN) (hf' : IsNormalized f) (hg' : IsNormalized g) :
    f.compare g = some (cmp (unpackedLevel f) (unpackedLevel g)) := by
  cases f with
  | notANumber => exact absurd rfl hf
  | infinity s =>
    cases g with
    | notANumber => exact absurd rfl hg
    | infinity t => cases s <;> cases t <;> rfl
    | zero t => cases s <;> rfl
    | finite t n p hn => cases s <;> cases t <;> rfl
  | zero s =>
    cases g with
    | notANumber => exact absurd rfl hg
    | infinity t => cases t <;> rfl
    | zero t => simp [UnpackedFloat.compare, unpackedLevel]
    | finite t n p hn =>
      have hpos := (hg' t n p hn rfl).value_pos
      cases t <;> rw [unpackedLevel, unpackedLevel, cmp_coe]
      · rw [(cmp_eq_gt_iff _ _).mpr (neg_lt_zero.mpr hpos)]
        rfl
      · rw [(cmp_eq_lt_iff _ _).mpr hpos]
        rfl
  | finite s m q hm =>
    have hm' := hf' s m q hm rfl
    have hpos := hm'.value_pos
    cases g with
    | notANumber => exact absurd rfl hg
    | infinity t => cases s <;> cases t <;> rfl
    | zero t =>
      cases s <;> rw [unpackedLevel, unpackedLevel, cmp_coe]
      · rw [(cmp_eq_lt_iff _ _).mpr (neg_lt_zero.mpr hpos)]
        rfl
      · rw [(cmp_eq_gt_iff _ _).mpr hpos]
        rfl
    | finite t n p hn =>
      have hn' := hg' t n p hn rfl
      have hpos' := hn'.value_pos
      cases s <;> cases t <;> rw [unpackedLevel, unpackedLevel, cmp_coe]
      · rw [cmp_neg, ← hm'.compare_eq hn']
        rfl
      · rw [(cmp_eq_lt_iff _ _).mpr (by linarith)]
        rfl
      · rw [(cmp_eq_gt_iff _ _).mpr (by linarith)]
        rfl
      · rw [← hm'.compare_eq hn']
        rfl

lemma compare_unpack (ha : ¬ a.isNaN) (hb : ¬ b.isNaN) :
    a.toModel.unpack.compare b.toModel.unpack = some (cmp (level a) (level b)) :=
  compare_eq ha hb (isNormalized_unpack a) (isNormalized_unpack b)

lemma compare_of_isNaN (h : a.isNaN ∨ b.isNaN) :
    a.toModel.unpack.compare b.toModel.unpack = none := by
  have h' : a.toModel.unpack.isNaN ∨ b.toModel.unpack.isNaN := h
  generalize a.toModel.unpack = f, b.toModel.unpack = g at h' ⊢
  cases f <;> cases g <;> simp_all [UnpackedFloat.isNaN, UnpackedFloat.compare]

theorem lt_iff : a < b ↔ ¬ a.isNaN ∧ ¬ b.isNaN ∧ level a < level b := by
  have hlt : a < b ↔ a.toModel.unpack.compare b.toModel.unpack = some .lt := by
    change decide (a.toModel.unpack.lt b.toModel.unpack = true) = true ↔ _
    rw [decide_eq_true_iff, UnpackedFloat.lt, beq_iff_eq]
  rw [hlt]
  by_cases h : a.isNaN ∨ b.isNaN
  · rw [compare_of_isNaN h]
    exact iff_of_false nofun fun h' => h.elim h'.1 h'.2.1
  · obtain ⟨ha, hb⟩ := not_or.mp h
    rw [compare_unpack ha hb, Option.some_inj, cmp_eq_lt_iff]
    exact ⟨fun h => ⟨ha, hb, h⟩, fun h => h.2.2⟩

theorem le_iff : a ≤ b ↔ ¬ a.isNaN ∧ ¬ b.isNaN ∧ level a ≤ level b := by
  have hle : a ≤ b ↔ (a.toModel.unpack.compare b.toModel.unpack).any (·.isLE) := by
    change decide (a.toModel.unpack.le b.toModel.unpack = true) = true ↔ _
    rw [decide_eq_true_iff, UnpackedFloat.le]
  rw [hle]
  by_cases h : a.isNaN ∨ b.isNaN
  · rw [compare_of_isNaN h]
    exact iff_of_false nofun fun h' => h.elim h'.1 h'.2.1
  · obtain ⟨ha, hb⟩ := not_or.mp h
    have hcmp : (cmp (level a) (level b)).isLE ↔ level a ≤ level b := by
      rw [← not_lt, ← cmp_eq_gt_iff]
      cases cmp (level a) (level b) <;> simp
    rw [compare_unpack ha hb, Option.any_some, hcmp]
    exact ⟨fun h => ⟨ha, hb, h⟩, fun h => h.2.2⟩

protected theorem le_trans {c : Float} (h : a ≤ b) (h' : b ≤ c) : a ≤ c := by
  rw [le_iff] at h h' ⊢
  exact ⟨h.1, h'.2.1, h.2.2.trans h'.2.2⟩

/-! ### Finite levels -/

theorem isFinite_iff : v.isFinite ↔ ∃ r, rational? v = some r := by
  change v.toModel.unpack.isFinite ↔ _
  rw [rational?]
  split <;> rename_i h <;> simp [h, UnpackedFloat.isFinite]

lemma level_of_rational? (h : rational? v = some r) : level v = (r : WithTop Rat) := by
  rw [rational?] at h
  rw [level]
  split at h <;> rename_i hv <;> cases h <;> rw [hv] <;> rfl

lemma not_isNaN_of_isFinite (h : v.isFinite) : ¬ v.isNaN := by
  have h' : v.toModel.unpack.isFinite := h
  change ¬ v.toModel.unpack.isNaN
  intro hnan
  cases hv : v.toModel.unpack <;> rw [hv] at h' hnan <;> cases h' <;> cases hnan

lemma isFinite_of_level (hv : ¬ v.isNaN) (h : level v = (r : WithTop Rat)) : v.isFinite := by
  change v.toModel.unpack.isFinite
  have hv' : ¬ v.toModel.unpack.isNaN := hv
  rw [level] at h
  cases hunpack : v.toModel.unpack with
  | notANumber =>
    rw [hunpack] at hv'
    exact absurd rfl hv'
  | infinity s =>
    rw [hunpack] at h
    cases s <;> cases h
  | zero s => rfl
  | finite s m q hpos => rfl

theorem rational?_eq_some_iff : rational? v = some r ↔ ¬ v.isNaN ∧ level v = (r : WithTop Rat) := by
  constructor
  · intro h
    exact ⟨not_isNaN_of_isFinite (isFinite_iff.mpr ⟨r, h⟩), level_of_rational? h⟩
  · rintro ⟨hv, hlevel⟩
    obtain ⟨s, hs⟩ := isFinite_iff.mp (isFinite_of_level hv hlevel)
    rw [level_of_rational? hs] at hlevel
    obtain rfl : s = r := by simpa using hlevel
    exact hs

/-- Finite numbers are compared like the rational numbers that they stand for. -/
theorem lt_iff_of_rational? (ha : rational? a = some r) (hb : rational? b = some s) :
    a < b ↔ r < s := by
  obtain ⟨ha', hlevel⟩ := rational?_eq_some_iff.mp ha
  obtain ⟨hb', hlevel'⟩ := rational?_eq_some_iff.mp hb
  rw [lt_iff, hlevel, hlevel']
  norm_cast
  exact ⟨fun h => h.2.2, fun h => ⟨ha', hb', h⟩⟩

lemma not_le_iff_lt (ha : a.isFinite) (hb : b.isFinite) : ¬ b ≤ a ↔ a < b := by
  have ha' := not_isNaN_of_isFinite ha
  have hb' := not_isNaN_of_isFinite hb
  rw [le_iff, lt_iff, and_iff_right hb', and_iff_right ha', and_iff_right ha', and_iff_right hb',
    not_le]

lemma le_iff_of_rational? (ha : rational? a = some r) (hb : rational? b = some s) :
    a ≤ b ↔ r ≤ s := by
  obtain ⟨ha', hlevel⟩ := rational?_eq_some_iff.mp ha
  obtain ⟨hb', hlevel'⟩ := rational?_eq_some_iff.mp hb
  rw [le_iff, hlevel, hlevel']
  norm_cast
  exact ⟨fun h => h.2.2, fun h => ⟨ha', hb', h⟩⟩

lemma isInteger_of_rational? {n : Nat} (h : rational? v = some (n : Rat)) : isInteger v := by
  rw [isInteger, h]
  rfl

lemma toNat_of_rational? {n : Nat} (h : rational? v = some (n : Rat)) : toNat v = n := by
  rw [toNat, h]
  rfl

end Number

end FunctionPlot
