/-
# Rounding and order

An operation gives the exact result, rounded to 53 bits as far as there are so many above the place
of the smallest numbers (`Number.IsRounded`), and an infinite number in place of a result that is
then too great (`Number.Correct`).  This holds for every number that the model of doubles packs after
rounding (`Number.correct_of_round`).

Rounding keeps the order (`Number.IsRounded.mono`).  So it does not jump over a number that can be
represented: what is not above such a number is not rounded to something above it, and so for below
(`Number.RoundsTo`).  A result that can be represented is exact (`Number.RoundsTo.rational?_eq`).
-/
import FunctionPlot.Proofs.Number.Order

namespace FunctionPlot

open Float.Model Float.Model.UnpackedFloat Rounding

namespace Magnitude

/-- A multiple of a power of two is a rational number rounded to 53 bits, or to as many as there are
above the place of the smallest numbers. -/
structure Rounds (x : Rat) (n : Nat) (t : Int) : Prop where
  nearest : Nearest n (x / 2 ^ t)
  lt : x / 2 ^ t < 2 ^ 53
  le_exponent : -1074 ≤ t
  normal : 2 ^ 52 ≤ x / 2 ^ t ∨ t = -1074

variable {v w : Magnitude} {x y : Rat} {m n : Nat} {t u : Int}

lemma Rounds.full_length (h : Rounds x n t) (hu : -1074 ≤ u) (hut : u < t) : 2 ^ 52 ≤ x / 2 ^ t :=
  h.normal.resolve_right fun hleast => by omega

lemma Rounds.eq_zero (h : Rounds 0 n t) : n = 0 :=
  Nat.le_zero.mp (h.nearest.le_of_le (by simp))

/-- A magnitude is rounded to itself. -/
lemma rounds_self (hw : w.Normalized) : Rounds w.value w.significand w.exponent := by
  have hdiv : w.value / 2 ^ w.exponent = w.significand := by
    rw [value, mul_div_cancel_right₀ _ (two_zpow_pos w.exponent).ne']
  refine ⟨?_, ?_, hw.le_exponent, ?_⟩ <;> rw [hdiv]
  · exact (locates_exact w.significand).nearest
  · exact_mod_cast hw.lt
  · exact_mod_cast hw.normal

/-- The full length of significands at one exponent is half of that at the next. -/
lemma two_zpow_step (h : t < u) : (2 : Rat) ^ 53 * 2 ^ t ≤ 2 ^ 52 * 2 ^ u := by
  calc (2 : Rat) ^ 53 * 2 ^ t = 2 ^ 52 * 2 ^ (t + (1 : Nat)) := by
        rw [two_zpow_add]
        ring
    _ ≤ 2 ^ 52 * 2 ^ u :=
      mul_le_mul_of_nonneg_left (zpow_le_zpow_right₀ (by norm_num) (by omega)) (by norm_num)

/-- Rounding keeps the order. -/
lemma Rounds.mono (hx : Rounds x m t) (hy : Rounds y n u) (h : x ≤ y) :
    (m : Rat) * 2 ^ t ≤ n * 2 ^ u := by
  have ht := two_zpow_pos t
  have hu := two_zpow_pos u
  rcases lt_trichotomy t u with htu | rfl | htu
  · -- the greater one has a full significand at a greater exponent
    have hm : (m : Rat) ≤ 2 ^ 53 := by
      have hle : m ≤ 2 ^ 53 := hx.nearest.le_of_le (by exact_mod_cast hx.lt.le)
      exact_mod_cast hle
    have hn : (2 : Rat) ^ 52 ≤ n := by
      have hfull := hy.full_length hx.le_exponent htu
      have hle : 2 ^ 52 ≤ n := hy.nearest.le_of_ge (by exact_mod_cast hfull)
      exact_mod_cast hle
    calc (m : Rat) * 2 ^ t ≤ 2 ^ 53 * 2 ^ t := mul_le_mul_of_nonneg_right hm ht.le
      _ ≤ 2 ^ 52 * 2 ^ u := two_zpow_step htu
      _ ≤ n * 2 ^ u := mul_le_mul_of_nonneg_right hn hu.le
  · have hmn := hx.nearest.mono hy.nearest (div_le_div_of_nonneg_right h ht.le)
    exact mul_le_mul_of_nonneg_right (by exact_mod_cast hmn) ht.le
  · -- the lesser one would have to be as great as all that has the lesser exponent
    have hfull := (le_div_iff₀ ht).mp (hx.full_length hy.le_exponent htu)
    have hlt := (div_lt_iff₀ hu).mp hy.lt
    exact absurd h (by linarith [two_zpow_step htu])

/-- The place of the last bit is found by the first shift. -/
lemma rounds_of_locates {m : Nat} {e : Int} {em em' : ExtendedMantissa}
    (hmantissa : em.mantissa = m) (hlocates : Locates em (x / 2 ^ e))
    (ht : t = Format.binary64.targetExponent (totalExponent m e)) (he : e ≤ t)
    (hlocates' : Locates em' (x / 2 ^ t)) :
    Rounds x em'.roundedMantissa t := by
  subst hmantissa
  change t = max (em.mantissa.log2 + 1 + e - 53) (-1074) at ht
  have hu := two_zpow_pos t
  refine ⟨hlocates'.nearest, ?_, by omega, ?_⟩
  · rw [div_lt_iff₀ hu]
    calc x < 2 ^ (em.mantissa.log2 + 1 + e) := lt_two_zpow_of_lt hlocates.lt_succ
      _ ≤ 2 ^ (t + (53 : Nat)) := zpow_le_zpow_right₀ (by norm_num) (by omega)
      _ = 2 ^ 53 * 2 ^ t := two_zpow_add t 53
  · rw [or_iff_not_imp_right]
    intro hleast
    have hm : 0 < em.mantissa := Nat.pos_of_ne_zero fun hm => by
      simp [hm] at ht
      omega
    rw [le_div_iff₀ hu]
    calc (2 : Rat) ^ 52 * 2 ^ t = 2 ^ (t + (52 : Nat)) := (two_zpow_add t 52).symm
      _ ≤ 2 ^ (em.mantissa.log2 + e) := zpow_le_zpow_right₀ (by norm_num) (by omega)
      _ ≤ x := two_zpow_le_of_le hm hlocates.le

/-- The second shift brings the rounded significand to its place. -/
lemma Rounds.exists_shift (h : Rounds x n t) :
    n = 0 ∧ shiftToTargetExponent Format.binary64 n t .exact
        = (.ofMantissaAndAccuracy 0 .exact, -1074) ∨
      ∃ v : Magnitude, v.Normalized ∧ v.value = n * 2 ^ t ∧
        shiftToTargetExponent Format.binary64 n t .exact
          = (.ofMantissaAndAccuracy v.significand .exact, v.exponent) := by
  have hn : n ≤ 2 ^ 53 := h.nearest.le_of_le (by exact_mod_cast h.lt.le)
  have hleast := h.le_exponent
  have hnormal : 2 ^ 52 ≤ n ∨ t = -1074 :=
    h.normal.imp_left fun hle => h.nearest.le_of_ge (by exact_mod_cast hle)
  rcases Nat.eq_zero_or_pos n with rfl | hpos
  · obtain rfl : t = -1074 := hnormal.resolve_left (by omega)
    exact .inl ⟨rfl, rfl⟩
  rcases hn.lt_or_eq with hlt | rfl
  · have hv : Normalized ⟨n, t⟩ := ⟨hpos, hlt, hleast, hnormal⟩
    have hshift := shift_normalized hv
    exact .inr ⟨⟨n, t⟩, hv, by rw [value], hshift⟩
  · have hv : Normalized ⟨2 ^ 52, t + 1⟩ :=
      ⟨by norm_num, by norm_num, by simp only; omega, .inl (by norm_num)⟩
    have hcarried := shift_carried (q := t + 1) (by omega)
    rw [Int.add_sub_cancel] at hcarried
    refine .inr ⟨_, hv, ?_, hcarried⟩
    rw [value, zpow_add_one₀ (by norm_num)]
    push_cast
    ring

/-- What the model of doubles does when it rounds. -/
lemma exists_rounds {m : Nat} {e : Int} {accuracy : Accuracy} (s : Sign)
    (hlocates : Locates (.ofMantissaAndAccuracy m accuracy) (x / 2 ^ e))
    (he : e ≤ Format.binary64.targetExponent (totalExponent m e)) :
    ∃ n t, Rounds x n t ∧
      (n = 0 ∧ roundWithAccuracy Format.binary64 s m e accuracy = .zero s ∨
        ∃ v : Magnitude, ∃ hv : v.Normalized, v.value = n * 2 ^ t ∧
          roundWithAccuracy Format.binary64 s m e accuracy
            = .finite s v.significand v.exponent hv.pos) := by
  have hmantissa : (ExtendedMantissa.ofMantissaAndAccuracy m accuracy).mantissa = m := by
    rcases accuracy with _ | _ | _ | _ <;> rfl
  obtain ⟨em, hem, hlocates'⟩ := locates_shiftToExponent hlocates he
  have hem' : shiftToTargetExponent Format.binary64 m e accuracy = (em, _) := hem
  have hrounds := rounds_of_locates hmantissa hlocates rfl he hlocates'
  refine ⟨_, _, hrounds, ?_⟩
  rcases hrounds.exists_shift with ⟨hzero, h₂⟩ | ⟨v, hv, hvalue, h₂⟩
  · refine .inl ⟨hzero, ?_⟩
    simp only [roundWithAccuracy, hem', h₂]
    rfl
  · exact .inr ⟨v, hv, hvalue, roundWithAccuracy_of_shifts hem h₂ hv.pos⟩

end Magnitude

namespace Number

/-- A rational number for which there is a finite number. -/
def Representable (r : Rat) : Prop := r = 0 ∨ ∃ w : Magnitude, w.Canonical ∧ |r| = w.value

/-- A number is the exact result of an operation, rounded: whatever can be represented is on the
same side of both. -/
structure RoundsTo (x : Rat) (v : Float) : Prop where
  not_isNaN : ¬ v.isNaN
  level_le : ∀ r, Representable r → x ≤ r → level v ≤ (r : WithTop Rat)
  le_level : ∀ r, Representable r → r ≤ x → (r : WithTop Rat) ≤ level v

/-- A rational number with a sign. -/
def signed : Sign → Rat → Rat
  | .positive, x => x
  | .negative, x => -x

/-- A rational number, rounded on the side of its sign. -/
def IsRounded (x r : Rat) : Prop :=
  ∃ s y n t, 0 ≤ y ∧ x = signed s y ∧ Magnitude.Rounds y n t ∧ r = signed s (n * 2 ^ t)

/-- The level of what is rounded, with infinite ends for what is too great. -/
def boundedLevel (r : Rat) : WithBot (WithTop Rat) :=
  if 2 ^ 1024 ≤ r then ⊤ else if r ≤ -2 ^ 1024 then ⊥ else (r : WithTop Rat)

/-- A number is the exact result of an operation, rounded. -/
structure Correct (x : Rat) (v : Float) : Prop where
  not_isNaN : ¬ v.isNaN
  exists_level : ∃ r, IsRounded x r ∧ level v = boundedLevel r

variable {a b v : Float} {x y r u : Rat} {s : Sign} {m n : Nat} {e t : Int} {accuracy : Accuracy}

lemma unpackedLevel_finite {hpos : 0 < m} :
    unpackedLevel (.finite s m e hpos) = (signed s (Magnitude.value ⟨m, e⟩) : WithTop Rat) := by
  cases s <;> rfl

lemma Representable.neg (h : Representable r) : Representable (-r) := by
  rcases h with rfl | ⟨w, hw, habs⟩
  · exact .inl neg_zero
  · exact .inr ⟨w, hw, by rw [abs_neg, habs]⟩

lemma representable_signed {w : Magnitude} (hw : w.Canonical) :
    Representable (signed s w.value) := by
  have habs := abs_of_pos hw.normalized.value_pos
  cases s
  · exact .inr ⟨w, hw, by rw [signed, abs_neg, habs]⟩
  · exact .inr ⟨w, hw, habs⟩

/-! ### Rounding and order -/

/-- Whatever can be represented is on the same side of both numbers. -/
def Brackets (x y : Rat) : Prop := ∀ r, Representable r → (x ≤ r → y ≤ r) ∧ (r ≤ x → r ≤ y)

/-- Rounding keeps the order. -/
theorem IsRounded.mono (hx : IsRounded x r) (hy : IsRounded y u) (h : x ≤ y) : r ≤ u := by
  obtain ⟨s, a, m, t, ha, rfl, hm, rfl⟩ := hx
  obtain ⟨s', b, n, p, hb, rfl, hn, rfl⟩ := hy
  have hm' : (0 : Rat) ≤ m * 2 ^ t := mul_nonneg (Nat.cast_nonneg m) (Magnitude.two_zpow_pos t).le
  have hn' : (0 : Rat) ≤ n * 2 ^ p := mul_nonneg (Nat.cast_nonneg n) (Magnitude.two_zpow_pos p).le
  cases s with
  | positive =>
    cases s' with
    | positive => exact hm.mono hn h
    | negative =>
      -- both are zero
      obtain rfl : a = 0 := le_antisymm (h.trans (neg_nonpos.mpr hb)) ha
      obtain rfl : b = 0 := le_antisymm (neg_nonneg.mp h) hb
      rw [hm.eq_zero, hn.eq_zero, signed, signed]
      simp
  | negative =>
    cases s' with
    | positive => exact (neg_nonpos.mpr hm').trans hn'
    | negative => exact neg_le_neg (hn.mono hm (neg_le_neg_iff.mp h))

/-- What can be represented is rounded to itself. -/
lemma isRounded_self (hr : Representable r) : IsRounded r r := by
  rcases hr with rfl | ⟨w, hw, habs⟩
  · refine ⟨.positive, 0, 0, -1074, le_rfl, rfl, ⟨?_, ?_, le_rfl, .inr rfl⟩, ?_⟩
    · have hzero : Nearest 0 ((0 : Nat) : Rat) := (locates_exact 0).nearest
      simpa using hzero
    · norm_num
    · rw [signed, Nat.cast_zero, zero_mul]
  · have hrounds := Magnitude.rounds_self hw.normalized
    rw [← habs] at hrounds
    have hsigned : ∃ s, r = signed s |r| := by
      rcases le_total 0 r with h | h
      · exact ⟨.positive, (abs_of_nonneg h).symm⟩
      · exact ⟨.negative, by rw [signed, abs_of_nonpos h, neg_neg]⟩
    obtain ⟨s, hs⟩ := hsigned
    exact ⟨s, |r|, _, _, abs_nonneg r, hs, hrounds, by rw [← Magnitude.value, ← habs, ← hs]⟩

/-- So what can be represented is not passed. -/
lemma IsRounded.brackets (h : IsRounded x y) : Brackets x y := fun _ hr =>
  ⟨fun hle => h.mono (isRounded_self hr) hle, fun hle => (isRounded_self hr).mono h hle⟩

/-! ### Numbers that are too great -/

lemma two_pow_eq : (2 : Rat) ^ 1024 = 2 ^ 52 * 2 ^ (972 : Int) := by
  rw [← Magnitude.two_zpow_add]
  rfl

lemma lt_of_canonical {w : Magnitude} (hw : w.Canonical) : w.value < 2 ^ 1024 := by
  rw [two_pow_eq]
  exact hw.normalized.value_lt (Int.lt_add_one_iff.mpr hw.exponent_le)

/-- A magnitude with too great an exponent is too great. -/
lemma le_of_normalized {w : Magnitude} (hw : w.Normalized) (hgreat : 971 < w.exponent) :
    2 ^ 1024 ≤ w.value := by
  have hnormal : 2 ^ 52 ≤ w.significand := hw.normal.resolve_right (by omega)
  rw [two_pow_eq, Magnitude.value]
  refine mul_le_mul (by exact_mod_cast hnormal) ?_ (Magnitude.two_zpow_pos _).le
    (Nat.cast_nonneg _)
  exact zpow_le_zpow_right₀ (by norm_num) (by omega)

lemma abs_lt_of_representable (hr : Representable r) : |r| < 2 ^ 1024 := by
  rcases hr with rfl | ⟨w, hw, habs⟩
  · rw [abs_zero]
    positivity
  · exact habs ▸ lt_of_canonical hw

lemma boundedLevel_of_abs_lt (h : |r| < 2 ^ 1024) : boundedLevel r = (r : WithTop Rat) := by
  obtain ⟨hlow, hhigh⟩ := abs_lt.mp h
  rw [boundedLevel, if_neg hhigh.not_ge, if_neg hlow.not_ge]

lemma boundedLevel_mono (h : x ≤ y) : boundedLevel x ≤ boundedLevel y := by
  rw [boundedLevel, boundedLevel]
  split
  · rename_i hx
    rw [if_pos (hx.trans h)]
  · split
    · exact bot_le
    · rename_i hx
      split
      · exact le_top
      · rw [if_neg fun hy => hx (h.trans hy)]
        exact_mod_cast h

/-- The sign of what is too great tells the infinite end. -/
lemma boundedLevel_signed (h : 2 ^ 1024 ≤ r) :
    boundedLevel (signed s r) = unpackedLevel (.infinity s) := by
  cases s with
  | positive => exact if_pos h
  | negative =>
    have hpos : (0 : Rat) < 2 ^ 1024 := by positivity
    have hneg : -r < 2 ^ 1024 := (neg_neg_of_pos (hpos.trans_le h)).trans hpos
    rw [signed, boundedLevel, if_neg hneg.not_ge, if_pos (neg_le_neg h)]
    rfl

/-- What is rounded correctly is on the same side of all that can be represented. -/
lemma Correct.roundsTo (h : Correct x v) : RoundsTo x v := by
  obtain ⟨hv, y, hrounded, hlevel⟩ := h
  refine ⟨hv, fun r hr hle => ?_, fun r hr hle => ?_⟩
  · rw [hlevel, ← boundedLevel_of_abs_lt (abs_lt_of_representable hr)]
    exact boundedLevel_mono ((hrounded.brackets r hr).1 hle)
  · rw [hlevel, ← boundedLevel_of_abs_lt (abs_lt_of_representable hr)]
    exact boundedLevel_mono ((hrounded.brackets r hr).2 hle)

lemma not_isNaN_of_unpack_infinity (hv : v.toModel.unpack = .infinity s) : ¬ v.isNaN := by
  change ¬ v.toModel.unpack.isNaN
  rw [hv]
  exact Bool.false_ne_true

/-- The number that is packed from a rounded one. -/
theorem correct_of_round (hx : 0 < x)
    (hlocates : Locates (.ofMantissaAndAccuracy m accuracy) (x / 2 ^ e))
    (he : e ≤ Format.binary64.targetExponent (totalExponent m e))
    (hv : v.toModel = .pack (roundWithAccuracy Format.binary64 s m e accuracy)) :
    Correct (signed s x) v := by
  obtain ⟨n, t, hrounds, hresult⟩ := Magnitude.exists_rounds s hlocates he
  have hnan : ¬ v.isNaN := by
    change ¬ v.toModel.unpack.isNaN
    rw [hv]
    exact (Packing.isNaN_unpack_pack _).not.mpr (not_isNaN_roundWithAccuracy _ _ _ _)
  have hunpack : v.toModel.unpack = UnpackedFloat.unpack Format.binary64
      (UnpackedFloat.pack Format.binary64 (roundWithAccuracy Format.binary64 s m e accuracy)) := by
    rw [hv]
    rfl
  refine ⟨hnan, signed s (n * 2 ^ t), ⟨s, x, n, t, hx.le, rfl, hrounds, rfl⟩, ?_⟩
  rcases hresult with ⟨rfl, hzero⟩ | ⟨w, hw, hvalue, hfinite⟩
  · have hsigned : signed s ((0 : Nat) * 2 ^ t) = 0 := by cases s <;> simp [signed]
    rw [level, hunpack, hzero, UnpackedFloat.pack, Packing.unpack_packedZero, unpackedLevel,
      hsigned, boundedLevel_of_abs_lt (abs_lt_of_representable (.inl rfl))]
  rw [← hvalue]
  -- the exponent may be too great, and then the packed number is infinite
  rcases le_or_gt w.exponent 971 with hfits | hgreat
  · have hcanonical : w.Canonical := ⟨hw.pos, hw.lt, hw.le_exponent, hfits, hw.normal⟩
    rw [level, hunpack, hfinite, Packing.unpack_pack_of_canonical hcanonical, unpackedLevel_finite,
      boundedLevel_of_abs_lt (abs_lt_of_representable (representable_signed hcanonical))]
  · rw [level, hunpack, hfinite, Packing.pack_of_great hgreat, Packing.unpack_packedInfinity,
      boundedLevel_signed (le_of_normalized hw hgreat)]

/-! ### Results that can be represented -/

lemma representable_of_rational? (h : rational? v = some r) : Representable r := by
  rw [rational?] at h
  split at h
  · cases h
  · cases h
  · cases h
    exact .inl rfl
  · rename_i hv
    cases h
    exact representable_signed (s := .positive) (canonical_magnitude hv)
  · rename_i hv
    cases h
    exact representable_signed (s := .negative) (canonical_magnitude hv)

/-- A result that can be represented is exact. -/
theorem RoundsTo.rational?_eq (h : RoundsTo r v) (hr : Representable r) : rational? v = some r :=
  rational?_eq_some_iff.mpr
    ⟨h.not_isNaN, le_antisymm (h.level_le r hr le_rfl) (h.le_level r hr le_rfl)⟩

lemma correct_of_rational? (h : rational? v = some r) : Correct r v := by
  obtain ⟨hv, hlevel⟩ := rational?_eq_some_iff.mp h
  have hr := representable_of_rational? h
  refine ⟨hv, r, isRounded_self hr, ?_⟩
  rw [hlevel, boundedLevel_of_abs_lt (abs_lt_of_representable hr)]

lemma correct_of_pack_zero (hv : v.toModel = .pack (.zero s)) : Correct 0 v := by
  have hunpack : v.toModel.unpack = .zero s := by
    rw [hv]
    exact Packing.unpack_packedZero s
  refine correct_of_rational? ?_
  rw [Number.rational?, hunpack]

end Number

end FunctionPlot
