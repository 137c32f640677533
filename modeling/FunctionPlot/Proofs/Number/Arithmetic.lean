/-
# Rounded arithmetic

A sum, a difference, a product or a quotient of finite numbers is the exact result, rounded
(`Number.correct_add`, `Number.correct_sub`, `Number.correct_mul`, `Number.correct_div`), and so is a
natural number (`Number.correct_ofNat`), which is exact below `2 ^ 53` (`Number.rational?_ofNat`).

So nothing gets less by the addition of a number that is not below zero, be it infinite
(`Number.le_add`, `Number.sub_le`).
-/
import FunctionPlot.Proofs.Number.RoundsTo

namespace FunctionPlot

open Float.Model Float.Model.UnpackedFloat Rounding

namespace Number

variable {a b v : Float} {x y r : Rat} {s : Sign} {m n : Nat} {e t : Int}

/-! ### Sums and differences -/

lemma unpack_eq_of_rational? (h : rational? v = some r) :
    (∃ s, v.toModel.unpack = .zero s ∧ r = 0) ∨ ∃ s m q hpos,
      v.toModel.unpack = .finite s m q hpos ∧ r = signed s (Magnitude.value ⟨m, q⟩) := by
  rw [Number.rational?] at h
  split at h <;> rename_i hv <;> cases h
  · exact .inl ⟨_, hv, rfl⟩
  · exact .inr ⟨_, _, _, _, hv, rfl⟩
  · exact .inr ⟨_, _, _, _, hv, rfl⟩

lemma signed_cast (k : Nat) : signed s k = (s.apply k : Int) := by
  cases s <;> simp [signed, Sign.apply]

lemma signed_mul : signed s (x * y) = signed s x * y := by
  cases s <;> simp [signed]

/-- A shift of the significand against the exponent keeps the number. -/
lemma value_shiftLeft (m k : Nat) (e : Int) :
    ((m <<< k : Nat) : Rat) * 2 ^ (e - k) = Magnitude.value ⟨m, e⟩ := by
  have he : (2 : Rat) ^ e = 2 ^ k * 2 ^ (e - k) := by
    rw [← Magnitude.two_zpow_add, Int.sub_add_cancel]
  rw [Magnitude.value, Nat.shiftLeft_eq, he]
  push_cast
  ring

lemma log2_shiftLeft (hm : m ≠ 0) (k : Nat) : (m <<< k).log2 = m.log2 + k := by
  induction k with
  | zero => rfl
  | succ k ih =>
    have hk : m <<< k ≠ 0 := by rwa [ne_eq, Nat.shiftLeft_eq_zero_iff]
    rw [Nat.shiftLeft_succ, Nat.log2_two_mul hk, ih, Nat.add_assoc]

lemma correct_round (hm : 0 < m)
    (hv : v.toModel = .pack (UnpackedFloat.round Format.binary64 s m e)) :
    Correct (signed s (Magnitude.value ⟨m, e⟩)) v := by
  -- a significand that is too short is filled up with `k` bits, which does not change the number
  obtain ⟨k, hk⟩ : ∃ k, k = (e - Format.binary64.targetExponent (totalExponent m e)).toNat :=
    ⟨_, rfl⟩
  have htotal : totalExponent (m <<< k) (e - k) = totalExponent m e := by
    rw [totalExponent, totalExponent, log2_shiftLeft hm.ne']
    push_cast
    ring
  have hpos : 0 < Magnitude.value ⟨m, e⟩ :=
    mul_pos (by exact_mod_cast hm) (Magnitude.two_zpow_pos e)
  have hvalue : Magnitude.value ⟨m, e⟩ / 2 ^ (e - k) = (m <<< k : Nat) := by
    rw [div_eq_iff (Magnitude.two_zpow_pos _).ne', value_shiftLeft]
  have hlocates := locates_exact (m <<< k)
  rw [← hvalue] at hlocates
  refine correct_of_round hpos hlocates ?_ ?_
  · rw [htotal]
    omega
  · rw [hv, UnpackedFloat.round, hk]
    rfl

lemma correct_normalize {k : Int}
    (hv : v.toModel = .pack (UnpackedFloat.normalize Format.binary64 k e .positive)) :
    Correct (k * 2 ^ e) v := by
  rw [UnpackedFloat.normalize] at hv
  rcases lt_trichotomy k 0 with hk | rfl | hk
  · obtain ⟨n, hn⟩ : ∃ n : Nat, k = -n := ⟨(-k).toNat, by omega⟩
    rw [compare_lt_iff_lt.mpr hk] at hv
    have hround := correct_round (by omega) hv
    rw [hn, neg_neg, Int.toNat_natCast] at hround
    rw [hn]
    simpa [signed, Magnitude.value] using hround
  · rw [compare_eq_iff_eq.mpr rfl] at hv
    simp only at hv
    rw [Int.cast_zero, zero_mul]
    exact correct_of_pack_zero hv
  · obtain ⟨n, rfl⟩ := Int.eq_ofNat_of_zero_le hk.le
    rw [compare_gt_iff_gt.mpr hk] at hv
    exact correct_round (by omega) hv

lemma correct_add_finite {s₁ s₂ : Sign} {m₁ m₂ : Nat} {e₁ e₂ : Int} {h₁ : 0 < m₁} {h₂ : 0 < m₂}
    (ha : a.toModel.unpack = .finite s₁ m₁ e₁ h₁) (hb : b.toModel.unpack = .finite s₂ m₂ e₂ h₂) :
    Correct (signed s₁ (Magnitude.value ⟨m₁, e₁⟩) + signed s₂ (Magnitude.value ⟨m₂, e₂⟩))
      (a + b) := by
  obtain ⟨t, ht⟩ : ∃ t, t = min e₁ e₂ := ⟨_, rfl⟩
  obtain ⟨k₁, hk₁⟩ := Int.eq_ofNat_of_zero_le (by omega : 0 ≤ e₁ - t)
  obtain ⟨k₂, hk₂⟩ := Int.eq_ofNat_of_zero_le (by omega : 0 ≤ e₂ - t)
  have hsum : signed s₁ (Magnitude.value ⟨m₁, e₁⟩) + signed s₂ (Magnitude.value ⟨m₂, e₂⟩)
      = (s₁.apply (m₁ <<< k₁ : Nat) + s₂.apply (m₂ <<< k₂ : Nat) : Int) * 2 ^ t := by
    rw [← value_shiftLeft m₁ k₁, ← value_shiftLeft m₂ k₂, signed_mul, signed_mul, signed_cast,
      signed_cast, (by omega : e₁ - k₁ = t), (by omega : e₂ - k₂ = t)]
    push_cast
    ring
  rw [hsum]
  refine correct_normalize ?_
  change Float.Model.pack (UnpackedFloat.add Format.binary64 a.toModel.unpack b.toModel.unpack) = _
  rw [ha, hb, UnpackedFloat.add]
  simp only [decreaseExponent, ← ht, hk₁, hk₂, Int.toNat_natCast]

/-- A sum of finite numbers is the exact sum, rounded. -/
theorem correct_add (ha : rational? a = some x) (hb : rational? b = some y) :
    Correct (x + y) (a + b) := by
  have hadd : (a + b).toModel
      = .pack (UnpackedFloat.add Format.binary64 a.toModel.unpack b.toModel.unpack) := rfl
  rcases unpack_eq_of_rational? ha with ⟨s, hs, rfl⟩ | ⟨s, m, e, hm, hs, rfl⟩
  · rcases unpack_eq_of_rational? hb with ⟨t, ht, rfl⟩ | ⟨t, n, p, hn, ht, -⟩
    · rw [add_zero]
      rw [hs, ht, UnpackedFloat.add, ← apply_ite] at hadd
      exact correct_of_pack_zero hadd
    · have hsum : a + b = b := eq_of_toModel <| by
        rw [hadd, hs, ht, ← pack_unpack b, ht]
        rfl
      rw [hsum, zero_add]
      exact correct_of_rational? hb
  · rcases unpack_eq_of_rational? hb with ⟨t, ht, rfl⟩ | ⟨t, n, p, hn, ht, rfl⟩
    · have hsum : a + b = a := eq_of_toModel <| by
        rw [hadd, hs, ht, ← pack_unpack a, hs]
        rfl
      rw [hsum, add_zero]
      exact correct_of_rational? ha
    · exact correct_add_finite hs ht

/-! ### Signs -/

lemma rational?_neg (h : rational? v = some r) : rational? (-v) = some (-r) := by
  rw [rational?, unpack_neg]
  rcases unpack_eq_of_rational? h with ⟨s, hs, rfl⟩ | ⟨s, m, e, hm, hs, rfl⟩ <;> rw [hs]
  · rw [neg_zero]
    rfl
  · cases s
    · rw [signed, neg_neg]
      rfl
    · rfl

lemma apply_neg (s : Sign) (k : Int) : (-s).apply k = -s.apply k := by
  cases s
  · exact (neg_neg k).symm
  · rfl

lemma unpacked_sub_eq (f g : UnpackedFloat) :
    UnpackedFloat.sub Format.binary64 f g = .add Format.binary64 f g.neg := by
  cases f with
  | finite s m e hm =>
    cases g with
    | finite t n p hn =>
      simp only [UnpackedFloat.sub, UnpackedFloat.neg, UnpackedFloat.add, apply_neg, sub_eq_add_neg]
    | notANumber | infinity t | zero t => rfl
  | notANumber | infinity s | zero s => cases g <;> rfl

/-- A difference is the sum with the other sign. -/
lemma sub_eq (a b : Float) : a - b = a + -b := eq_of_toModel <| by
  change Float.Model.pack (UnpackedFloat.sub Format.binary64 a.toModel.unpack b.toModel.unpack)
    = .pack (UnpackedFloat.add Format.binary64 a.toModel.unpack (-b).toModel.unpack)
  rw [unpack_neg, unpacked_sub_eq]

/-- A difference of finite numbers is the exact difference, rounded. -/
theorem correct_sub (ha : rational? a = some x) (hb : rational? b = some y) :
    Correct (x - y) (a - b) := by
  rw [sub_eq, sub_eq_add_neg]
  exact correct_add ha (rational?_neg hb)

/-- The magnitude of a number. -/
lemma rational?_abs (h : rational? v = some r) : rational? v.abs = some |r| := by
  rw [rational?, unpack_abs]
  rcases unpack_eq_of_rational? h with ⟨s, hs, rfl⟩ | ⟨s, m, e, hm, hs, rfl⟩ <;> rw [hs]
  · rw [abs_zero]
    rfl
  · have hpos := (canonical_magnitude hs).normalized.value_pos
    cases s
    · rw [signed, abs_neg, abs_of_pos hpos]
      rfl
    · rw [signed, abs_of_pos hpos]
      rfl

/-! ### Products -/

/-- A product of significands has bits enough, or it is in the place of the smallest numbers. -/
lemma le_target_of_canonical {u w : Magnitude} (hu : u.Canonical) (hw : w.Canonical) :
    u.exponent + w.exponent ≤ Format.binary64.targetExponent
      (totalExponent (u.significand * w.significand) (u.exponent + w.exponent)) := by
  change _ ≤ max (((u.significand * w.significand).log2 : Int) + 1
    + (u.exponent + w.exponent) - 53) (-1074)
  have hpos := Nat.mul_pos hu.pos hw.pos
  by_cases hnormal : 2 ^ 52 ≤ u.significand ∨ 2 ^ 52 ≤ w.significand
  · have hle : 2 ^ 52 ≤ u.significand * w.significand := hnormal.elim
      (fun h => h.trans (Nat.le_mul_of_pos_right _ hw.pos))
      (fun h => h.trans (Nat.le_mul_of_pos_left _ hu.pos))
    have hlog := (Nat.le_log2 hpos.ne').mpr hle
    omega
  · obtain ⟨hu', hw'⟩ := not_or.mp hnormal
    have hu'' := hu.normal.resolve_left hu'
    have hw'' := hw.normal.resolve_left hw'
    omega

lemma signed_mul_signed (s t : Sign) (x y : Rat) :
    signed s x * signed t y = signed (s * t) (x * y) := by
  cases s with
  | positive =>
    cases t with
    | positive => rfl
    | negative => exact mul_neg x y
  | negative =>
    cases t with
    | positive => exact neg_mul x y
    | negative => exact neg_mul_neg x y

/-- A product of finite numbers is the exact product, rounded. -/
theorem correct_mul (ha : rational? a = some x) (hb : rational? b = some y) :
    Correct (x * y) (a * b) := by
  have hmul : (a * b).toModel
      = .pack (UnpackedFloat.mul Format.binary64 a.toModel.unpack b.toModel.unpack) := rfl
  rcases unpack_eq_of_rational? ha with ⟨s, hs, rfl⟩ | ⟨s, m, e, hm, hs, rfl⟩
  · rw [zero_mul]
    rcases unpack_eq_of_rational? hb with ⟨t, ht, -⟩ | ⟨t, n, p, hn, ht, -⟩ <;>
      exact correct_of_pack_zero (by rw [hmul, hs, ht, UnpackedFloat.mul])
  rcases unpack_eq_of_rational? hb with ⟨t, ht, rfl⟩ | ⟨t, n, p, hn, ht, rfl⟩
  · rw [mul_zero]
    exact correct_of_pack_zero (by rw [hmul, hs, ht, UnpackedFloat.mul])
  · have hu := canonical_magnitude hs
    have hw := canonical_magnitude ht
    have htarget := le_target_of_canonical hu hw
    have hpos := mul_pos hu.normalized.value_pos hw.normalized.value_pos
    have hvalue : Magnitude.value ⟨m, e⟩ * Magnitude.value ⟨n, p⟩ / 2 ^ (e + p)
        = (m * n : Nat) := by
      rw [div_eq_iff (Magnitude.two_zpow_pos _).ne', zpow_add₀ (by norm_num), Magnitude.value,
        Magnitude.value]
      push_cast
      ring
    have hlocates := locates_exact (m * n)
    rw [← hvalue] at hlocates
    rw [signed_mul_signed]
    refine correct_of_round hpos hlocates htarget ?_
    rw [hmul, hs, ht, UnpackedFloat.mul]

/-! ### Quotients -/

lemma signed_div_signed (s t : Sign) (x y : Rat) :
    signed s x / signed t y = signed (s / t) (x / y) := by
  cases s with
  | positive =>
    cases t with
    | positive => rfl
    | negative => exact div_neg x
  | negative =>
    cases t with
    | positive => exact neg_div y x
    | negative => exact neg_div_neg_eq x y

/-- A quotient of finite numbers is the exact quotient, rounded. -/
theorem correct_div (ha : rational? a = some x) (hb : rational? b = some y) (hy : y ≠ 0) :
    Correct (x / y) (a / b) := by
  have hdiv : (a / b).toModel
      = .pack (UnpackedFloat.div Format.binary64 a.toModel.unpack b.toModel.unpack) := rfl
  rcases unpack_eq_of_rational? hb with ⟨t, ht, rfl⟩ | ⟨t, n, p, hn, ht, rfl⟩
  · exact absurd rfl hy
  rcases unpack_eq_of_rational? ha with ⟨s, hs, rfl⟩ | ⟨s, m, e, hm, hs, rfl⟩
  · rw [zero_div]
    exact correct_of_pack_zero (by rw [hdiv, hs, ht, UnpackedFloat.div])
  obtain ⟨q, hq, htarget, hcore⟩ := Decimal.exists_divCore_eq hm hn e p
  obtain ⟨k, hk⟩ := Int.eq_ofNat_of_zero_le (by omega : 0 ≤ e - p - q)
  rw [hk, Int.toNat_natCast] at htarget hcore
  have hu := Magnitude.two_zpow_pos
  have hvalue : Magnitude.value ⟨m, e⟩ / Magnitude.value ⟨n, p⟩ / 2 ^ q
      = ((m <<< k : Nat) : Rat) / n := by
    have hn' : (n : Rat) ≠ 0 := by exact_mod_cast hn.ne'
    have he : (2 : Rat) ^ e = 2 ^ k * (2 ^ p * 2 ^ q) := by
      rw [← zpow_add₀ (by norm_num), ← Magnitude.two_zpow_add]
      congr 1
      omega
    rw [Magnitude.value, Magnitude.value, he, Nat.shiftLeft_eq]
    have hp := (hu p).ne'
    have hq := (hu q).ne'
    push_cast
    field_simp
  have hlocates := locates_div (m <<< k) hn
  rw [← hvalue] at hlocates
  rw [signed_div_signed]
  refine correct_of_round (div_pos ?_ ?_) hlocates htarget ?_
  · exact (canonical_magnitude hs).normalized.value_pos
  · exact (canonical_magnitude ht).normalized.value_pos
  · rw [hdiv, hs, ht, UnpackedFloat.div]
    simp only [hcore]

/-! ### Natural numbers -/

lemma representable_natCast (h : n < 2 ^ 53) : Representable n := by
  rcases Nat.eq_zero_or_pos n with rfl | hpos
  · exact .inl Nat.cast_zero
  have hlog : n.log2 < 53 := (Nat.log2_lt hpos.ne').mpr h
  obtain ⟨k, hk⟩ : ∃ k, k = 52 - n.log2 := ⟨_, rfl⟩
  have hlog' : (n <<< k).log2 = 52 := by
    rw [log2_shiftLeft hpos.ne']
    omega
  have hne : n <<< k ≠ 0 := fun h => by simp [h] at hlog'
  have hcanonical : Magnitude.Canonical ⟨n <<< k, 0 - k⟩ := by
    refine ⟨Nat.pos_of_ne_zero hne, (Nat.log2_lt hne).mp (by omega), ?_, ?_,
      .inl ((Nat.le_log2 hne).mp hlog'.ge)⟩ <;> simp only <;> omega
  refine .inr ⟨_, hcanonical, ?_⟩
  rw [abs_of_pos (by exact_mod_cast hpos), Magnitude.value, value_shiftLeft, Magnitude.value]
  simp

lemma rational?_one : rational? (Float.ofBits 0x3FF0000000000000) = some 1 := by
  have hunpack : (Float.ofBits 0x3FF0000000000000).toModel.unpack
      = .finite .positive (2 ^ 52) (-52) (by norm_num) := by rfl
  rw [rational?, hunpack]
  norm_num

/-- A natural number is made of its bits and multiplied by one. -/
theorem rational?_ofNat (h : n < 2 ^ 53) : rational? (Float.ofNat n) = some (n : Rat) := by
  have hofNat : Float.ofNat n = n.toUInt64.toFloat * Float.ofBits 0x3FF0000000000000 := by
    change Float.ofScientific n false 0 = _
    rw [Float.ofScientific, dif_pos ⟨h, by norm_num⟩]
    rfl
  have hbits : n.toUInt64.toNat = n := by
    rw [Nat.toUInt64_eq, UInt64.toNat_ofNat']
    omega
  have hmodel : n.toUInt64.toFloat.toModel
      = .pack (UnpackedFloat.normalize Format.binary64 n.toUInt64.toNat 0 .positive) := rfl
  have hcast := (correct_normalize hmodel).roundsTo
  rw [hbits, zpow_zero, mul_one] at hcast
  have hmul := (correct_mul (hcast.rational?_eq (representable_natCast h)) rational?_one).roundsTo
  rw [mul_one] at hmul
  rw [hofNat]
  exact hmul.rational?_eq (representable_natCast h)

/-- A natural number is rounded if it is too great to be exact. -/
theorem correct_ofNat (n : Nat) : Correct n (Float.ofNat n) := by
  rcases lt_or_ge n (2 ^ 53) with hlt | hge
  · exact correct_of_rational? (rational?_ofNat hlt)
  have hpos : 0 < n := (by norm_num : 0 < 2 ^ 53).trans_le hge
  have hofNat : (Float.ofNat n).toModel = .pack (roundWithAccuracy Format.binary64 .positive
      (n <<< 53 * 10 ^ 0) (-53) .exact) := by
    change (Float.ofScientific n false 0).toModel = _
    rw [Float.ofScientific, dif_neg fun h => absurd h.1 hge.not_gt]
    change Float.Model.pack (UnpackedFloat.ofScientific Format.binary64 n 0) = _
    have hsmall : ¬ (0 : Int) < -((2 ^ 11 : Int) + n.log2) := by norm_num
    rw [UnpackedFloat.ofScientific, dif_neg hpos.ne', if_neg (by norm_num), if_neg hsmall,
      if_pos le_rfl]
    rfl
  have hvalue : Decimal.value ⟨n, 0⟩ = n := by rw [Decimal.value, zpow_zero, mul_one]
  have hlocates := locates_exact (n <<< 53 * 10 ^ 0)
  have hmul : Decimal.value ⟨n, 0⟩ / 2 ^ (-53 : Int) = _ := Decimal.value_mul (k := 0) rfl
  rw [← hmul, hvalue] at hlocates
  exact correct_of_round (by exact_mod_cast hpos) hlocates (Decimal.le_target_mul hpos 0) hofNat

lemma rational?_zero : rational? 0 = some 0 := by rw [rational?, unpack_zero]

lemma rational?_ofNat_one : rational? 1 = some 1 := by
  exact_mod_cast rational?_ofNat (n := 1) (by norm_num)

lemma rational?_two : rational? (2 : Float) = some ((2 : Nat) : Rat) :=
  rational?_ofNat (by norm_num)

/-- The integers that are at least two stand for natural numbers. -/
theorem isInteger_and_two_le_iff :
    (isInteger a ∧ ¬ a < 2) ↔ ∃ n : Nat, 2 ≤ n ∧ rational? a = some (n : Rat) := by
  constructor
  · rintro ⟨hinteger, hlow⟩
    rw [isInteger] at hinteger
    split at hinteger
    · rename_i r hr
      rw [lt_iff_of_rational? hr rational?_two, not_lt] at hlow
      have hnum : r = r.num := ((Rat.den_eq_one_iff r).mp (by simpa using hinteger)).symm
      rw [hnum] at hlow
      have hlow' : 2 ≤ r.num := by exact_mod_cast hlow
      obtain ⟨n, hn⟩ := Int.eq_ofNat_of_zero_le (by omega : 0 ≤ r.num)
      refine ⟨n, by omega, ?_⟩
      rw [hr, hnum, hn]
      rfl
    · cases hinteger
  · rintro ⟨n, hlow, hn⟩
    refine ⟨isInteger_of_rational? hn, ?_⟩
    rw [lt_iff_of_rational? hn rational?_two, not_lt]
    exact_mod_cast hlow

/-! ### Results on one side -/

lemma level_zero : level 0 = ((0 : Rat) : WithTop Rat) := level_of_rational? rational?_zero

lemma beq_zero_iff (hv : ¬ v.isNaN) : v == 0 ↔ level v = ((0 : Rat) : WithTop Rat) := by
  have hzero := (rational?_eq_some_iff.mp rational?_zero).1
  rw [eq_zero_iff, ← unpack_zero, UnpackedFloat.beq, compare_unpack hv hzero, level_zero,
    beq_iff_eq, Option.some_inj, cmp_eq_eq_iff]

lemma eq_infinity_or_finite (hv : ¬ v.isNaN) (h : level 0 ≤ level v) :
    v.toModel.unpack = .infinity .positive ∨ ∃ r, 0 ≤ r ∧ rational? v = some r := by
  by_cases hfinite : v.isFinite
  · obtain ⟨r, hr⟩ := isFinite_iff.mp hfinite
    rw [level_zero, level_of_rational? hr] at h
    exact .inr ⟨r, by exact_mod_cast h, hr⟩
  · left
    have hv' : ¬ v.toModel.unpack.isNaN := hv
    have hfinite' : ¬ v.toModel.unpack.isFinite := hfinite
    rw [level_zero, level] at h
    cases hunpack : v.toModel.unpack with
    | infinity s =>
      cases s with
      | positive => rfl
      | negative =>
        rw [hunpack] at h
        exact absurd h (WithBot.bot_lt_coe _).not_ge
    | notANumber =>
      rw [hunpack] at hv'
      exact absurd rfl hv'
    | zero s | finite s m q hpos =>
      rw [hunpack] at hfinite'
      exact absurd rfl hfinite'

lemma unpack_infinity : infinity.toModel.unpack = .infinity .positive := by rfl

lemma unpack_neg_infinity : (-infinity).toModel.unpack = .infinity .negative := by rfl

lemma level_infinity : level infinity = ⊤ := by rw [level, unpack_infinity]; rfl

lemma level_neg_infinity : level (-infinity) = ⊥ := by rw [level, unpack_neg_infinity]; rfl

lemma unpack_add_infinity (ha : rational? a = some x) (hb : b.toModel.unpack = .infinity s) :
    (a + b).toModel.unpack = .infinity s := by
  change (Float.Model.pack (UnpackedFloat.add Format.binary64 a.toModel.unpack
    b.toModel.unpack)).unpack = _
  rw [hb]
  rcases unpack_eq_of_rational? ha with ⟨t, ht, -⟩ | ⟨t, m, e, hm, ht, -⟩ <;> rw [ht] <;>
    exact Packing.unpack_packedInfinity s

/-- Nothing gets less by the addition of a number that is not below zero. -/
theorem le_add (ha : a.isFinite) (hb : ¬ b.isNaN) (h : level 0 ≤ level b) : a ≤ a + b := by
  obtain ⟨x, hx⟩ := isFinite_iff.mp ha
  rw [le_iff]
  rcases eq_infinity_or_finite hb h with hb | ⟨y, hy, hb⟩
  · have hsum := unpack_add_infinity hx hb
    refine ⟨not_isNaN_of_isFinite ha, not_isNaN_of_unpack_infinity hsum, ?_⟩
    rw [level, level, hsum]
    exact le_top
  · have hsum := (correct_add hx hb).roundsTo
    refine ⟨not_isNaN_of_isFinite ha, hsum.not_isNaN, ?_⟩
    rw [level_of_rational? hx]
    exact hsum.le_level x (representable_of_rational? hx) (by linarith)

/-- Nothing gets greater by the subtraction of such a number. -/
theorem sub_le (ha : a.isFinite) (hb : ¬ b.isNaN) (h : level 0 ≤ level b) : a - b ≤ a := by
  obtain ⟨x, hx⟩ := isFinite_iff.mp ha
  rw [le_iff]
  rcases eq_infinity_or_finite hb h with hb | ⟨y, hy, hb⟩
  · have hneg : (-b).toModel.unpack = .infinity .negative := by
      rw [unpack_neg, hb]
      rfl
    have hsum := unpack_add_infinity hx hneg
    rw [sub_eq]
    refine ⟨not_isNaN_of_unpack_infinity hsum, not_isNaN_of_isFinite ha, ?_⟩
    rw [level, level, hsum]
    exact bot_le
  · have hdifference := (correct_sub hx hb).roundsTo
    refine ⟨hdifference.not_isNaN, not_isNaN_of_isFinite ha, ?_⟩
    rw [level_of_rational? hx]
    exact hdifference.level_le x (representable_of_rational? hx) (by linarith)

/-- A product with a finite factor above zero is not below zero if the other factor is not. -/
theorem nonneg_mul (ha : ¬ a.isNaN) (h : level 0 ≤ level a) (hb : rational? b = some y)
    (hy : 0 < y) : ¬ (a * b).isNaN ∧ level 0 ≤ level (a * b) := by
  rcases eq_infinity_or_finite ha h with ha | ⟨x, hx, ha⟩
  · have hproduct : (a * b).toModel.unpack = .infinity .positive := by
      change (Float.Model.pack (UnpackedFloat.mul Format.binary64 a.toModel.unpack
        b.toModel.unpack)).unpack = _
      rw [ha]
      rcases unpack_eq_of_rational? hb with ⟨t, ht, rfl⟩ | ⟨t, m, e, hm, ht, rfl⟩
      · exact absurd hy (lt_irrefl 0)
      · cases t with
        | positive =>
          rw [ht, UnpackedFloat.mul]
          exact Packing.unpack_packedInfinity .positive
        | negative =>
          have hpos := (canonical_magnitude ht).normalized.value_pos
          rw [signed] at hy
          linarith
    refine ⟨not_isNaN_of_unpack_infinity hproduct, ?_⟩
    rw [level, level, hproduct]
    exact le_top
  · have hproduct := (correct_mul ha hb).roundsTo
    refine ⟨hproduct.not_isNaN, ?_⟩
    rw [level_zero]
    exact hproduct.le_level 0 (.inl rfl) (mul_nonneg hx hy.le)

end Number

end FunctionPlot
