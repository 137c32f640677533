/-
# Numbers read back from their text

A finite number without a minus sign is written as a numeral, and the number of this numeral is the
number again (`Number.exists_numeral_written`): the shortest decimal of a number is in its rounding
interval, its text has the same value, and so the number is the one nearest to it.
-/
import FunctionPlot.Proofs.Number.Numeral
import FunctionPlot.Proofs.Number.Packing

namespace FunctionPlot

namespace RoundingInterval

variable {i : RoundingInterval} {e : Int} {digits n : Nat} {d : Decimal}

lemma contains_of_neighbour? (h : i.neighbour? e = some digits) :
    i.Contains (Decimal.value ⟨digits, e⟩) := by
  rw [neighbour?] at h
  split at h
  · rename_i hbelow
    split at h
    · rename_i habove
      simp only at h
      split at h <;> cases h
      · exact hbelow
      · exact habove
    · cases h
      exact hbelow
  · split at h
    · rename_i habove
      cases h
      exact habove
    · cases h

lemma contains_of_search (h : i.search n e = some d) : i.Contains d.value := by
  induction n generalizing e with
  | zero => cases h
  | succ n ih =>
    rw [search] at h
    split at h
    · rename_i digits hdigits
      cases h
      exact contains_of_neighbour? hdigits
    · exact ih h

end RoundingInterval

namespace Magnitude

lemma value_exactDecimal (v : Magnitude) : v.exactDecimal.value = v.value := by
  obtain ⟨m, q⟩ := v
  rw [exactDecimal, value]
  split
  · rename_i hq
    obtain ⟨k, hk⟩ := Int.eq_ofNat_of_zero_le hq
    simp only at hk
    simp [Decimal.value, hk, Nat.pow_eq]
  · rename_i hq
    simp only at hq
    obtain ⟨k, rfl⟩ : ∃ k : Nat, q = -k := ⟨(-q).toNat, by omega⟩
    have hten : (10 : Rat) ^ k = 2 ^ k * 5 ^ k := by rw [← mul_pow]; norm_num
    simp only [Decimal.value, neg_neg, Int.toNat_natCast, zpow_neg, zpow_natCast, hten,
      Nat.pow_eq]
    push_cast
    field_simp

lemma contains_value (v : Magnitude) : v.rounding.Contains v.value := by
  have hhalf := two_zpow_pos (v.exponent - 1)
  have hquarter := two_zpow_pos (v.exponent - 2)
  refine .inl ⟨?_, ?_⟩
  · simp only [rounding]
    split <;> linarith
  · simp only [rounding]
    linarith

/-- The shortest decimal of a number is in its rounding interval. -/
theorem contains_shortest (v : Magnitude) : v.rounding.Contains v.shortest.value := by
  rw [shortest]
  cases hsearch : v.rounding.search (pointPlace v.value - min v.exponent 0).toNat
    (pointPlace v.value) with
  | some d => exact RoundingInterval.contains_of_search hsearch
  | none =>
    rw [Option.getD_none, value_exactDecimal]
    exact v.contains_value

end Magnitude

namespace Number

open Float.Model

variable {v : Float}

lemma unpack_zero : (0 : Float).toModel.unpack = .zero .positive := by rfl

lemma unpack_negativeZero : negativeZero.toModel.unpack = .zero .negative := by rfl

/-- The written form of a number without a minus sign is a numeral of the number. -/
theorem exists_numeral_written (hfinite : v.isFinite) (hsign : ¬ isNegative v) :
    ∃ n : Numeral, written v = n.text ∧ ofNumeral n.text = v := by
  have hunpack : v.toModel.unpack.isFinite := hfinite
  rw [written, writtenIn]
  split
  · rename_i h
    simp [h, UnpackedFloat.isFinite] at hunpack
  · rename_i h
    simp [h, UnpackedFloat.isFinite] at hunpack
  · rename_i h
    simp [h, UnpackedFloat.isFinite] at hunpack
  · rename_i h
    refine ⟨⟨[unit '0'], none, none, by simp, .replicate 1, by simp⟩, rfl, ?_⟩
    rw [eq_of_unpack (h.trans unpack_zero.symm)]
    rfl
  · rename_i h
    exact absurd ((isNegative_of_unpack_zero h).mpr rfl) hsign
  · rename_i m q hpos h
    obtain ⟨n, htext, hvalue⟩ := (Magnitude.shortest ⟨m, q⟩).exists_numeral
    refine ⟨n, htext, ?_⟩
    rw [ofNumeral, n.ofText?_text]
    have hcontains := Magnitude.contains_shortest ⟨m, q⟩
    rw [← hvalue] at hcontains
    exact nearest_eq h hcontains
  · rename_i h
    exact absurd ((isNegative_of_unpack h).mpr rfl) hsign

/-- The number of a numeral has no minus sign. -/
lemma not_isNegative_ofNumeral (t : Text) : ¬ isNegative (ofNumeral t) := by
  rw [ofNumeral]
  split
  · exact not_isNegative_nearest _
  · decide +kernel

/-! ### Numbers by their sign -/

lemma lt_zero_iff (v : Float) : v < 0 ↔ v.toModel.unpack.lt (.zero .positive) := by
  rw [← unpack_zero]
  change decide (v.toModel.unpack.lt (0 : Float).toModel.unpack = true) = true ↔ _
  exact decide_eq_true_iff

lemma eq_zero_iff (v : Float) : v == 0 ↔ v.toModel.unpack.beq (.zero .positive) := by
  rw [← unpack_zero]
  rfl

/-- A number below zero is written as the number without its sign behind a minus. -/
lemma written_of_lt (hfinite : v.isFinite) (h : v < 0) : isNegative v ∧ (-v).isFinite ∧
    ¬ isNegative (-v) ∧ written v = unit '-' :: written (-v) := by
  have hunpack : v.toModel.unpack.isFinite := hfinite
  rw [lt_zero_iff] at h
  cases hv : v.toModel.unpack with
  | notANumber | infinity s =>
    rw [hv] at hunpack
    cases hunpack
  | zero s =>
    rw [hv] at h
    cases s <;> cases h
  | finite s m q hpos =>
    rw [hv] at h
    cases s with
    | positive => cases h
    | negative =>
      have hneg : (-v).toModel.unpack = .finite .positive m q hpos := by
        rw [unpack_neg, hv]
        rfl
      refine ⟨(isNegative_of_unpack hv).mpr rfl, ?_, ?_, ?_⟩
      · change (-v).toModel.unpack.isFinite
        rw [hneg]
        rfl
      · rw [isNegative_of_unpack hneg]
        exact fun h => nomatch h
      · simp only [written, writtenIn, hv, hneg]
        rfl

lemma exists_unpack_eq_zero (h : v == 0) : ∃ s, v.toModel.unpack = .zero s := by
  rw [eq_zero_iff] at h
  cases hv : v.toModel.unpack with
  | notANumber =>
    rw [hv] at h
    cases h
  | infinity s | finite s =>
    rw [hv] at h
    cases s <;> cases h
  | zero s => exact ⟨s, rfl⟩

/-- Negative zero is the only number with a minus sign that equals zero. -/
lemma eq_negativeZero (h : v == 0) (hsign : isNegative v) : v = negativeZero := by
  obtain ⟨s, hv⟩ := exists_unpack_eq_zero h
  obtain rfl := (isNegative_of_unpack_zero hv).mp hsign
  exact eq_of_unpack (hv.trans unpack_negativeZero.symm)

/-- A zero is written without its sign. -/
lemma written_of_eq_zero (h : v == 0) : written v = [unit '0'] := by
  obtain ⟨s, hv⟩ := exists_unpack_eq_zero h
  rw [written, writtenIn, hv]
  cases s <;> rfl

/-- Every other number with a minus sign is below zero. -/
lemma eq_zero_of_isNegative (hfinite : v.isFinite) (hsign : isNegative v) (h : ¬ v < 0) :
    v == 0 := by
  have hunpack : v.toModel.unpack.isFinite := hfinite
  rw [lt_zero_iff] at h
  rw [eq_zero_iff]
  cases hv : v.toModel.unpack with
  | notANumber | infinity s =>
    rw [hv] at hunpack
    cases hunpack
  | zero s => cases s <;> rfl
  | finite s m q hpos =>
    obtain rfl := (isNegative_of_unpack hv).mp hsign
    rw [hv] at h
    exact absurd rfl h

/-- Every number below zero has a minus sign. -/
lemma isNegative_of_lt_zero (h : v < 0) : isNegative v := by
  rw [lt_zero_iff] at h
  cases hv : v.toModel.unpack with
  | notANumber =>
    rw [hv] at h
    cases h
  | infinity s =>
    rw [hv] at h
    rw [isNegative_of_unpack_infinity hv]
    cases s with
    | positive => cases h
    | negative => rfl
  | zero s =>
    rw [hv] at h
    cases s <;> cases h
  | finite s m q hpos =>
    rw [hv] at h
    rw [isNegative_of_unpack hv]
    cases s with
    | positive => cases h
    | negative => rfl

lemma not_lt_zero_of_not_isNegative (hsign : ¬ isNegative v) : ¬ v < 0 :=
  fun h => hsign (isNegative_of_lt_zero h)

/-- Zero is the only number without a minus sign that equals zero. -/
lemma eq_of_eq_zero (h : v == 0) (hsign : ¬ isNegative v) : v = 0 := by
  obtain ⟨s, hv⟩ := exists_unpack_eq_zero h
  rw [isNegative_of_unpack_zero hv] at hsign
  cases s with
  | positive => exact eq_of_unpack (hv.trans unpack_zero.symm)
  | negative => exact absurd rfl hsign

/-- A finite number other than negative zero is written as a numeral of the number, or behind a
minus sign as one of its opposite. -/
theorem written_cases (hfinite : v.isFinite) (hzero : v ≠ negativeZero) :
    ∃ n : Numeral, written v = n.text ∧ ofNumeral n.text = v ∨
      written v = unit '-' :: n.text ∧ ofNumeral n.text = -v := by
  by_cases hsign : isNegative v
  · by_cases hlt : v < 0
    · obtain ⟨-, hfinite', hsign', hwritten⟩ := written_of_lt hfinite hlt
      obtain ⟨n, htext, hvalue⟩ := exists_numeral_written hfinite' hsign'
      exact ⟨n, .inr ⟨by rw [hwritten, htext], hvalue⟩⟩
    · exact absurd (eq_negativeZero (eq_zero_of_isNegative hfinite hsign hlt) hsign) hzero
  · obtain ⟨n, htext, hvalue⟩ := exists_numeral_written hfinite hsign
    exact ⟨n, .inl ⟨htext, hvalue⟩⟩

end Number

end FunctionPlot
