/-
# Finite numbers and their bits

A finite number that is not zero has a significand and an exponent in canonical form, and its bits
are packed from them (`pack_unpacked`).
-/
import FunctionPlot.Proofs.Number.Nearest

namespace FunctionPlot

namespace Packing

open Float.Model Float.Model.UnpackedFloat

lemma toBitVec_ofBitVec (b : BitVec 1) : (Sign.ofBitVec b).toBitVec = b := by
  rcases BitVec.eq_zero_or_eq_one b with rfl | rfl <;> rfl

/-- The three parts of some bits make up all of them. -/
lemma packComponents_parts {spec : Format} (b : BitVec spec.numBits) :
    packComponents spec (Sign.ofBitVec (unpackSign b)) (unpackExponent b) (unpackMantissa b)
      = b := by
  rw [packComponents, toBitVec_ofBitVec]
  have hm := spec.hm
  have he := spec.he
  refine BitVec.eq_of_getLsbD_eq fun i hi => ?_
  simp only [BitVec.getLsbD_append, unpackSign, unpackExponent, unpackMantissa,
    BitVec.getLsbD_cast, BitVec.extractLsb, BitVec.getLsbD_extractLsb']
  rcases Nat.lt_or_ge i spec.mantissaBitsWithoutImplicit with h | h
  · simp [h]
    omega
  rcases Nat.lt_or_ge (i - spec.mantissaBitsWithoutImplicit) spec.exponentBits with h' | h'
  · simp [h', Nat.not_lt.mpr h, Nat.add_sub_cancel' h]
    omega
  · -- only the bit of the sign is left
    obtain rfl : i = spec.exponentBits + spec.mantissaBitsWithoutImplicit := by omega
    simp [Nat.add_comm]

@[simp] lemma unpackSign_packComponents {spec : Format} (s : Sign)
    (e : BitVec spec.exponentBits) (m : BitVec spec.mantissaBitsWithoutImplicit) :
    unpackSign (packComponents spec s e m) = s.toBitVec := by
  refine BitVec.eq_of_getLsbD_eq fun i hi => ?_
  obtain rfl : i = 0 := by omega
  simp [unpackSign, packComponents, BitVec.extractLsb, BitVec.getLsbD_append, BitVec.getElem_append]

lemma toNat_one_append (b : BitVec 52) : (1#1 ++ b).toNat = 2 ^ 52 + b.toNat := by
  rw [BitVec.toNat_append, ← Nat.shiftLeft_add_eq_or_of_lt b.isLt]
  simp [Nat.shiftLeft_eq]

variable {b : BitVec Format.binary64.numBits} {s : Sign} {m : Nat} {q : Int} {hpos : 0 < m}

/-- The exponent and the significand of a finite number come from its bits in one of two ways. -/
lemma unpack_cases (h : UnpackedFloat.unpack Format.binary64 b = .finite s m q hpos) :
    s = Sign.ofBitVec (unpackSign b) ∧
      ((unpackExponent b = 0#_ ∧ m = (unpackMantissa b).toNat ∧ q = -1074) ∨
        (unpackExponent b ≠ -1#_ ∧ unpackExponent b ≠ 0#_ ∧
          m = 2 ^ 52 + (unpackMantissa b).toNat ∧ q = (unpackExponent b).toNat - 1075)) := by
  unfold UnpackedFloat.unpack at h
  simp only at h
  split at h
  · split at h <;> cases h
  · rename_i hinfinite
    split at h
    · rename_i hzero
      split at h
      · cases h
      · injection h with hs hm hq
        refine ⟨hs.symm, .inl ⟨hzero, hm.symm, ?_⟩⟩
        rw [← hq, hzero]
        rfl
    · rename_i hzero
      injection h with hs hm hq
      exact ⟨hs.symm, .inr ⟨hinfinite, hzero, hm.symm.trans (toNat_one_append _), hq.symm⟩⟩

lemma toNat_exponent_bounds (hinfinite : unpackExponent b ≠ -1#_) (hzero : unpackExponent b ≠ 0#_) :
    0 < (unpackExponent b).toNat ∧ (unpackExponent b).toNat < 2047 := by
  have hlt := (unpackExponent b).isLt
  have hne : (unpackExponent b).toNat ≠ 2047 := fun h => hinfinite (BitVec.eq_of_toNat_eq h)
  have hne' : (unpackExponent b).toNat ≠ 0 := fun h => hzero (BitVec.eq_of_toNat_eq h)
  change (unpackExponent b).toNat < 2048 at hlt
  omega

lemma canonical_of_unpack (h : UnpackedFloat.unpack Format.binary64 b = .finite s m q hpos) :
    (⟨m, q⟩ : Magnitude).Canonical := by
  have hmantissa : (unpackMantissa b).toNat < 2 ^ 52 := (unpackMantissa b).isLt
  obtain ⟨-, ⟨-, hm, hq⟩ | ⟨hinfinite, hzero, hm, hq⟩⟩ := unpack_cases h
  · exact ⟨hpos, by simp only; omega, by simp only; omega, by simp only; omega, .inr hq⟩
  · have hbounds := toNat_exponent_bounds hinfinite hzero
    exact ⟨hpos, by simp only; omega, by simp only; omega, by simp only; omega,
      .inl (by simp only; omega)⟩

/-- The bits of a finite number are packed from its significand and its exponent. -/
lemma pack_of_unpack (h : UnpackedFloat.unpack Format.binary64 b = .finite s m q hpos) (t : Sign) :
    UnpackedFloat.pack Format.binary64 (.finite t m q hpos)
      = packComponents Format.binary64 t (unpackExponent b) (unpackMantissa b) := by
  have hmantissa : (unpackMantissa b).toNat < 2 ^ 52 := (unpackMantissa b).isLt
  have hbias : q + (Format.binary64.exponentBias : Int)
      + (Format.binary64.mantissaBitsWithoutImplicit : Int) = q + 1075 := by
    change q + 1023 + 52 = q + 1075
    omega
  obtain ⟨-, ⟨hzero, hm, hq⟩ | ⟨hinfinite, hzero, hm, hq⟩⟩ := unpack_cases h
  · have hlog : m.log2 < 52 := (Nat.log2_lt hpos.ne').mpr (by omega)
    have hofNat : BitVec.ofNat 52 m = unpackMantissa b := by rw [hm, BitVec.ofNat_toNat]; simp
    rw [UnpackedFloat.pack, hbias, hq, if_neg (by decide), if_neg]
    · rw [hofNat, ← hzero]
    · change ¬ m.log2 + 1 = 53
      omega
  · have hbounds := toNat_exponent_bounds hinfinite hzero
    have hlog : m.log2 < 53 := (Nat.log2_lt hpos.ne').mpr (by omega)
    have hlog' : 52 ≤ m.log2 := (Nat.le_log2 hpos.ne').mpr (by omega)
    have hbiased : (q + 1075).toNat = (unpackExponent b).toNat := by omega
    have hofNat : BitVec.ofNat 52 m = unpackMantissa b := by
      refine BitVec.eq_of_toNat_eq ?_
      rw [BitVec.toNat_ofNat, hm]
      omega
    have hofNat' : BitVec.ofNat 11 (q + 1075).toNat = unpackExponent b := by
      rw [hbiased, BitVec.ofNat_toNat]
      simp
    rw [UnpackedFloat.pack, hbias, if_neg, if_pos]
    · rw [hofNat, hofNat']
    · change m.log2 + 1 = 53
      omega
    · change ¬ 2048 ≤ (q + 1075).toNat + 1
      omega

/-- Packing undoes unpacking. -/
lemma pack_unpacked (h : UnpackedFloat.unpack Format.binary64 b = .finite s m q hpos) :
    UnpackedFloat.pack Format.binary64 (.finite s m q hpos) = b := by
  rw [pack_of_unpack h, (unpack_cases h).1, packComponents_parts]

lemma ofBitVec_toBitVec (s : Sign) : Sign.ofBitVec s.toBitVec = s := by
  cases s <;> rfl

lemma unpack_zero (h : UnpackedFloat.unpack Format.binary64 b = .zero s) :
    b = packedZero Format.binary64 s := by
  have hparts := packComponents_parts b
  unfold UnpackedFloat.unpack at h
  simp only at h
  split at h
  · split at h <;> cases h
  · split at h
    · rename_i hzero
      split at h
      · rename_i hmantissa
        injection h with hs
        rw [← hparts, packedZero, hzero, hmantissa, hs]
        rfl
      · cases h
    · cases h

lemma unpack_infinity (h : UnpackedFloat.unpack Format.binary64 b = .infinity s) :
    b = packedInfinity Format.binary64 s := by
  have hparts := packComponents_parts b
  unfold UnpackedFloat.unpack at h
  simp only at h
  split at h
  · rename_i hinfinite
    split at h
    · rename_i hmantissa
      injection h with hs
      rw [← hparts, packedInfinity, hinfinite, hmantissa, hs]
      rfl
    · cases h
  · split at h
    · split at h <;> cases h
    · cases h

lemma isNaN_unpack_packComponents (s : Sign) (x : BitVec Format.binary64.exponentBits)
    (y : BitVec Format.binary64.mantissaBitsWithoutImplicit) :
    (UnpackedFloat.unpack Format.binary64 (packComponents Format.binary64 s x y)).isNaN
      ↔ x = -1#_ ∧ y ≠ 0#_ := by
  unfold UnpackedFloat.unpack
  simp only [unpackExponent_packComponents, unpackMantissa_packComponents]
  by_cases hx : x = -1#_
  · by_cases hy : y = 0#_ <;> simp [hx, hy, UnpackedFloat.isNaN]
  · rw [if_neg hx]
    refine iff_of_false ?_ (fun h => hx h.1)
    split
    · split <;> simp [UnpackedFloat.isNaN]
    · simp [UnpackedFloat.isNaN]

/-- Packing makes `NaN` of nothing else. -/
lemma isNaN_unpack_pack (f : UnpackedFloat) :
    (UnpackedFloat.unpack Format.binary64 (UnpackedFloat.pack Format.binary64 f)).isNaN
      ↔ f.isNaN := by
  cases f with
  | notANumber => exact iff_of_true ((isNaN_unpack_packComponents ..).mpr ⟨rfl, by decide⟩) rfl
  | infinity s =>
    exact iff_of_false (fun h => ((isNaN_unpack_packComponents ..).mp h).2 rfl)
      (by simp [UnpackedFloat.isNaN])
  | zero s =>
    exact iff_of_false (fun h => absurd ((isNaN_unpack_packComponents ..).mp h).1 (by decide))
      (by simp [UnpackedFloat.isNaN])
  | finite s m e hm =>
    refine iff_of_false ?_ (by simp [UnpackedFloat.isNaN])
    rw [UnpackedFloat.pack]
    split
    · exact fun h => ((isNaN_unpack_packComponents ..).mp h).2 rfl
    rename_i hfits
    split
    · -- the exponent fits below that of infinity
      intro h
      have hx := congrArg BitVec.toNat ((isNaN_unpack_packComponents ..).mp h).1
      rw [BitVec.toNat_ofNat] at hx
      change _ % 2048 = 2047 at hx
      change ¬ 2048 ≤ _ at hfits
      omega
    · exact fun h => absurd ((isNaN_unpack_packComponents ..).mp h).1 (by decide)

lemma finite_congr {m' : Nat} {q' : Int} {hpos' : 0 < m'} (hm : m = m') (hq : q = q') :
    UnpackedFloat.finite s m q hpos = .finite s m' q' hpos' := by
  subst hm hq
  rfl

lemma unpack_normal {x : BitVec 11} {y : BitVec 52} (t : Sign) (hinfinite : x ≠ -1#11)
    (hzero : x ≠ 0#11) (hm : 2 ^ 52 + y.toNat = m) (hq : (x.toNat : Int) - 1075 = q) :
    UnpackedFloat.unpack Format.binary64 (packComponents Format.binary64 t x y)
      = .finite t m q hpos := by
  unfold UnpackedFloat.unpack
  simp only [unpackExponent_packComponents, unpackMantissa_packComponents,
    unpackSign_packComponents, ofBitVec_toBitVec]
  rw [if_neg hinfinite, if_neg hzero]
  exact finite_congr ((toNat_one_append y).trans hm) hq

lemma unpack_subnormal {y : BitVec 52} (t : Sign) (hzero : y ≠ 0#52) (hm : y.toNat = m) :
    UnpackedFloat.unpack Format.binary64 (packComponents Format.binary64 t 0#11 y)
      = .finite t m (-1074) hpos := by
  unfold UnpackedFloat.unpack
  simp only [unpackExponent_packComponents, unpackMantissa_packComponents,
    unpackSign_packComponents, ofBitVec_toBitVec]
  rw [if_neg (by decide), if_pos trivial, dif_neg hzero]
  exact finite_congr hm rfl

/-- A number with a canonical magnitude can be packed. -/
lemma unpack_pack_of_canonical {v : Magnitude} (hv : v.Canonical) (t : Sign) :
    UnpackedFloat.unpack Format.binary64
        (UnpackedFloat.pack Format.binary64 (.finite t v.significand v.exponent hv.pos))
      = .finite t v.significand v.exponent hv.pos := by
  obtain ⟨m, q⟩ := v
  obtain ⟨hpos, hm, hq, hq', hnormal⟩ := hv
  simp only at hpos hm hq hq' hnormal ⊢
  have hbias : q + (Format.binary64.exponentBias : Int)
      + (Format.binary64.mantissaBitsWithoutImplicit : Int) = q + 1075 := by
    change q + 1023 + 52 = q + 1075
    omega
  have hfits : ¬ 2 ^ Format.binary64.exponentBits ≤ (q + 1075).toNat + 1 := by
    change ¬ 2048 ≤ _
    omega
  rw [UnpackedFloat.pack, hbias, if_neg hfits]
  rcases Nat.lt_or_ge m (2 ^ 52) with hm' | hm'
  · have hlog : m.log2 < 52 := (Nat.log2_lt hpos.ne').mpr hm'
    have hmantissa : (BitVec.ofNat 52 m).toNat = m := by
      rw [BitVec.toNat_ofNat]
      omega
    have hzero : BitVec.ofNat 52 m ≠ 0#52 := fun h => by
      have h' : m = 0 := hmantissa.symm.trans (congrArg BitVec.toNat h)
      omega
    obtain rfl : q = -1074 := hnormal.resolve_left (by omega)
    rw [if_neg]
    · exact unpack_subnormal t hzero hmantissa
    · change ¬ m.log2 + 1 = 53
      omega
  · have hlog : m.log2 < 53 := (Nat.log2_lt hpos.ne').mpr hm
    have hlog' : 52 ≤ m.log2 := (Nat.le_log2 hpos.ne').mpr hm'
    have hexponent : (BitVec.ofNat 11 (q + 1075).toNat).toNat = (q + 1075).toNat := by
      rw [BitVec.toNat_ofNat]
      omega
    have hinfinite : BitVec.ofNat 11 (q + 1075).toNat ≠ -1#11 := fun h => by
      have h' : (q + 1075).toNat = 2047 := hexponent.symm.trans (congrArg BitVec.toNat h)
      omega
    have hzero : BitVec.ofNat 11 (q + 1075).toNat ≠ 0#11 := fun h => by
      have h' : (q + 1075).toNat = 0 := hexponent.symm.trans (congrArg BitVec.toNat h)
      omega
    rw [if_pos]
    · refine unpack_normal t hinfinite hzero ?_ ?_
      · rw [BitVec.toNat_ofNat]
        omega
      · rw [hexponent]
        omega
    · change m.log2 + 1 = 53
      omega

/-- A number with too great an exponent is packed as infinity. -/
lemma pack_of_great (hq : 971 < q) (t : Sign) :
    UnpackedFloat.pack Format.binary64 (.finite t m q hpos)
      = packedInfinity Format.binary64 t := by
  rw [UnpackedFloat.pack]
  refine if_pos ?_
  change 2048 ≤ (q + 1023 + 52).toNat + 1
  omega

lemma unpack_packedInfinity (t : Sign) : UnpackedFloat.unpack Format.binary64
    (packedInfinity Format.binary64 t) = .infinity t := by
  cases t <;> rfl

lemma unpack_packedZero (t : Sign) : UnpackedFloat.unpack Format.binary64
    (packedZero Format.binary64 t) = .zero t := by
  cases t <;> rfl

end Packing

namespace Number

open Float.Model Float.Model.UnpackedFloat

variable {v : Float} {s : UnpackedFloat.Sign} {m : Nat} {q : Int} {hpos : 0 < m}

/-- The magnitude of a finite number is canonical. -/
theorem canonical_magnitude (h : v.toModel.unpack = .finite s m q hpos) :
    (⟨m, q⟩ : Magnitude).Canonical := Packing.canonical_of_unpack h

/-- A decimal in the rounding interval of a number is nearest to it. -/
theorem nearest_eq (h : v.toModel.unpack = .finite .positive m q hpos) {d : Decimal}
    (hd : (Magnitude.rounding ⟨m, q⟩).Contains d.value) : d.nearest = v := by
  obtain ⟨⟨bits, valid⟩⟩ := v
  have hunpacked := Decimal.nearest_unpacked (canonical_magnitude h) hd
  have hpacked := Packing.pack_unpacked h
  rw [Decimal.nearest, Float.Model.ofScientific, hunpacked]
  simp only [Float.Model.pack, hpacked]

/-- Another sign leaves the magnitude as it is. -/
lemma unpack_pack_sign (h : v.toModel.unpack = .finite s m q hpos) (t : Sign) :
    (Float.Model.pack (.finite t m q hpos)).unpack = .finite t m q hpos :=
  Packing.unpack_pack_of_canonical (canonical_magnitude h) t

lemma unpack_neg (v : Float) : (-v).toModel.unpack = v.toModel.unpack.neg := by
  have hneg : (-v).toModel = Float.Model.pack v.toModel.unpack.neg := rfl
  rw [hneg]
  cases hv : v.toModel.unpack with
  | notANumber => rfl
  | infinity s | zero s => cases s <;> rfl
  | finite s m q hpos => exact unpack_pack_sign hv (-s)

/-- Packing undoes unpacking, also for what is not finite: only one `NaN` is valid. -/
lemma pack_unpack (v : Float) : Float.Model.pack v.toModel.unpack = v.toModel := by
  obtain ⟨⟨bits, valid⟩⟩ := v
  have hpacked : UnpackedFloat.pack Format.binary64
      (UnpackedFloat.unpack Format.binary64 bits.toBitVec) = bits.toBitVec := by
    cases h : UnpackedFloat.unpack Format.binary64 bits.toBitVec with
    | finite s m q hpos => exact Packing.pack_unpacked h
    | zero s => exact (Packing.unpack_zero h).symm
    | infinity s => exact (Packing.unpack_infinity h).symm
    | notANumber =>
      have hnan := Packing.isNaN_unpack_packComponents
        (Sign.ofBitVec (@unpackSign Format.binary64 bits.toBitVec))
        (unpackExponent bits.toBitVec) (unpackMantissa bits.toBitVec)
      rw [Packing.packComponents_parts, h] at hnan
      obtain ⟨hexponent, hmantissa⟩ := hnan.mp rfl
      exact (valid.eq_packedNaN hexponent hmantissa).symm
  simp only [Float.Model.pack, Float.Model.unpack, hpacked]

lemma eq_of_toModel {v w : Float} (h : v.toModel = w.toModel) : v = w := congrArg Float.ofModel h

/-- A number is what it is unpacked to. -/
lemma eq_of_unpack {v w : Float} (h : v.toModel.unpack = w.toModel.unpack) : v = w := by
  refine eq_of_toModel ?_
  rw [← pack_unpack v, h, pack_unpack]

/-- Two changes of the sign cancel. -/
protected lemma neg_neg (v : Float) : - -v = v := by
  refine eq_of_unpack ?_
  rw [unpack_neg, unpack_neg]
  cases v.toModel.unpack with
  | notANumber => rfl
  | infinity s | zero s | finite s => cases s <;> rfl

lemma unpack_abs (v : Float) : v.abs.toModel.unpack = v.toModel.unpack.abs := by
  have habs : v.abs.toModel = Float.Model.pack v.toModel.unpack.abs := rfl
  rw [habs]
  cases hv : v.toModel.unpack with
  | notANumber => rfl
  | infinity s | zero s => cases s <;> rfl
  | finite s m q hpos => exact unpack_pack_sign hv .positive

/-- Whether a number is finite does not depend on its sign. -/
lemma isFinite_neg_iff : (-v).isFinite ↔ v.isFinite := by
  change (-v).toModel.unpack.isFinite ↔ v.toModel.unpack.isFinite
  rw [unpack_neg]
  cases v.toModel.unpack <;> rfl

/-- The sign of a number is the first of its bits. -/
lemma isNegative_iff (v : Float) :
    isNegative v ↔ @unpackSign Format.binary64 v.toModel.toBits.toBitVec = 1#1 := by
  have hlt : v.toModel.toBits.toNat < 2 ^ 64 := v.toModel.toBits.toNat_lt
  have hbits : isNegative v ↔ v.toModel.toBits >>> 63 = 1 := by
    rw [isNegative, beq_iff_eq]
    rfl
  rw [hbits, ← UInt64.toNat_inj, ← BitVec.toNat_inj]
  simp [unpackSign, BitVec.extractLsb]
  omega

lemma isNegative_of_unpack (h : v.toModel.unpack = .finite s m q hpos) :
    isNegative v ↔ s = .negative := by
  rw [isNegative_iff, (Packing.unpack_cases h).1]
  rcases BitVec.eq_zero_or_eq_one (@unpackSign Format.binary64 v.toModel.toBits.toBitVec)
    with hsign | hsign <;> rw [hsign] <;> simp [Sign.ofBitVec]

lemma isNegative_of_unpack_zero (h : v.toModel.unpack = .zero s) :
    isNegative v ↔ s = .negative := by
  have hbits : v.toModel.toBits.toBitVec = packedZero Format.binary64 s := Packing.unpack_zero h
  rw [isNegative_iff, hbits, packedZero, Packing.unpackSign_packComponents]
  cases s <;> simp [Sign.toBitVec]

lemma isNegative_of_unpack_infinity (h : v.toModel.unpack = .infinity s) :
    isNegative v ↔ s = .negative := by
  have hbits : v.toModel.toBits.toBitVec = packedInfinity Format.binary64 s :=
    Packing.unpack_infinity h
  rw [isNegative_iff, hbits, packedInfinity, Packing.unpackSign_packComponents]
  cases s <;> simp [Sign.toBitVec]

/-- Rounding keeps the sign. -/
lemma exists_pack_round (t : Sign) (m : Nat) (e : Int) (accuracy : Accuracy) : ∃ x y,
    UnpackedFloat.pack Format.binary64 (roundWithAccuracy Format.binary64 t m e accuracy)
      = packComponents Format.binary64 t x y := by
  obtain ⟨em, e₁, h₁⟩ : ∃ em e₁, shiftToTargetExponent Format.binary64 m e accuracy = (em, e₁) :=
    ⟨_, _, rfl⟩
  obtain ⟨em', e₂, h₂⟩ : ∃ em' e₂,
      shiftToTargetExponent Format.binary64 em.roundedMantissa e₁ .exact = (em', e₂) := ⟨_, _, rfl⟩
  simp only [roundWithAccuracy, h₁, h₂]
  split
  · exact ⟨_, _, rfl⟩
  · rw [UnpackedFloat.pack]
    split
    · exact ⟨_, _, rfl⟩
    split
    · exact ⟨_, _, rfl⟩
    · exact ⟨_, _, rfl⟩

/-- The number nearest to a decimal has no minus sign. -/
theorem not_isNegative_nearest (d : Decimal) : ¬ isNegative d.nearest := by
  have hpack : ∃ x y, UnpackedFloat.pack Format.binary64
      (UnpackedFloat.ofScientific Format.binary64 d.digits d.exponent)
      = packComponents Format.binary64 .positive x y := by
    rw [UnpackedFloat.ofScientific]
    split
    · exact ⟨_, _, rfl⟩
    split
    · exact ⟨_, _, rfl⟩
    split
    · exact ⟨_, _, rfl⟩
    split
    · exact exists_pack_round .positive _ _ _
    · exact exists_pack_round .positive _ _ _
  obtain ⟨x, y, hxy⟩ := hpack
  have hbits : d.nearest.toModel.toBits.toBitVec
      = packComponents Format.binary64 .positive x y := hxy
  rw [isNegative_iff, hbits, Packing.unpackSign_packComponents]
  decide

lemma not_isNaN_roundWithAccuracy (t : Sign) (m : Nat) (e : Int) (accuracy : Accuracy) :
    ¬ (roundWithAccuracy Format.binary64 t m e accuracy).isNaN := by
  rw [roundWithAccuracy]
  simp only
  split <;> simp [UnpackedFloat.isNaN]

/-- The number nearest to a decimal is a number. -/
theorem not_isNaN_nearest (d : Decimal) : ¬ d.nearest.isNaN := by
  have hnearest : d.nearest.isNaN ↔
      (UnpackedFloat.ofScientific Format.binary64 d.digits d.exponent).isNaN :=
    Packing.isNaN_unpack_pack _
  rw [hnearest, UnpackedFloat.ofScientific]
  split
  · simp [UnpackedFloat.isNaN]
  split
  · simp [UnpackedFloat.isNaN]
  split
  · simp [UnpackedFloat.isNaN]
  split
  · exact not_isNaN_roundWithAccuracy _ _ _ _
  · exact not_isNaN_roundWithAccuracy _ _ _ _

end Number

end FunctionPlot
