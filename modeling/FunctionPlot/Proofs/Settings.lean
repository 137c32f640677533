/-
# Settings that passed

Settings that are not refused have a range with finite ends in order and a number of points within
its bounds, and all such settings pass (`Settings.ofFields_eq_ok_iff`).  A field has no problems
exactly if it has none with the value that is taken for it, since every default passes its own
check.
-/
import FunctionPlot.Proofs.Number.Arithmetic
import FunctionPlot.Settings

namespace FunctionPlot

namespace Settings

variable {v default : Float} {n : Nat} {problems : Float → List Problem} {input : Input}
  {settings : Settings} {function low high samples : Input}

/-- What holds of all settings that are not refused. -/
structure Proper (settings : Settings) : Prop where
  low_finite : settings.low.isFinite
  high_finite : settings.high.isFinite
  low_lt_high : settings.low < settings.high
  two_le_samples : 2 ≤ settings.samples
  samples_le : settings.samples ≤ maxSamples

/-! ### Fields -/

lemma limitProblems_eq_nil_iff (v : Float) : limitProblems v = [] ↔ v.isFinite := by
  rw [limitProblems]
  split <;> simp [*]

/-- A number of points has no problems if it is an integer within the bounds. -/
lemma samplesProblems_eq_nil_iff (v : Float) :
    samplesProblems v = [] ↔
      ∃ n : Nat, 2 ≤ n ∧ n ≤ maxSamples ∧ Number.rational? v = some (n : Rat) := by
  have hmax : Number.rational? (Float.ofNat maxSamples) = some (maxSamples : Rat) :=
    Number.rational?_ofNat (by norm_num [maxSamples])
  have hsplit : samplesProblems v = [] ↔
      (Number.isInteger v ∧ ¬ v < 2) ∧ ¬ Float.ofNat maxSamples < v := by
    rw [samplesProblems]
    split <;> split <;> split <;> simp [*]
  rw [hsplit, Number.isInteger_and_two_le_iff]
  constructor
  · rintro ⟨⟨n, hlow, hn⟩, hhigh⟩
    rw [Number.lt_iff_of_rational? hmax hn, not_lt] at hhigh
    exact ⟨n, hlow, by exact_mod_cast hhigh, hn⟩
  · rintro ⟨n, hlow, hhigh, hn⟩
    refine ⟨⟨n, hlow, hn⟩, ?_⟩
    rw [Number.lt_iff_of_rational? hmax hn, not_lt]
    exact_mod_cast hhigh

lemma problems_defaults : limitProblems Settings.default.low = [] ∧
    limitProblems Settings.default.high = [] ∧
    samplesProblems (Float.ofNat Settings.default.samples) = [] := by
  refine ⟨by decide +kernel, by decide +kernel, ?_⟩
  exact (samplesProblems_eq_nil_iff _).mpr ⟨501, by norm_num, by norm_num [maxSamples],
    Number.rational?_ofNat (by norm_num [Settings.default])⟩

/-- If the default of a field has no problems, the field has those of the value that is taken for
it. -/
lemma problems_lookNumber (hdefault : problems default = [])
    (h : (lookNumber problems default input).value? = some v) :
    (lookNumber problems default input).problems = problems v := by
  cases input with
  | absent =>
    cases h
    exact hdefault.symm
  | number value =>
    rw [lookNumber] at h ⊢
    split at h
    · cases h
    · rename_i hnan
      cases h
      rw [if_neg hnan]
  | null | boolean value | text value | list items | record fields => cases h

/-- The value of a number is the number itself. -/
lemma eq_of_lookNumber {w : Float}
    (h : (lookNumber problems default (.number w)).value? = some v) : v = w := by
  rw [lookNumber] at h
  split at h
  · cases h
  · cases h
    rfl

/-- A finite number has a value. -/
lemma lookNumber_of_isFinite (h : v.isFinite) :
    (lookNumber problems default (.number v)).value? = some v := by
  rw [lookNumber, if_neg (Number.not_isNaN_of_isFinite h)]

/-- A text that has a value has no problems. -/
lemma problems_lookText {default t : Text} (h : (lookText default input).value? = some t) :
    (lookText default input).problems = [] := by
  cases input with
  | absent | text value => rfl
  | null | boolean value | number value | list items | record fields => cases h

lemma issuesAt_eq_nil_iff {path : Text} {ps : List Problem} : issuesAt path ps = [] ↔ ps = [] :=
  List.map_eq_nil_iff

/-- Settings that are not refused are those that have the values of all fields and are proper. -/
theorem ofFields_eq_ok_iff : ofFields function low high samples = .ok settings ↔
    settings.Proper ∧
    (lookText Settings.default.function function).value? = some settings.function ∧
    (lookNumber limitProblems Settings.default.low low).value? = some settings.low ∧
    (lookNumber limitProblems Settings.default.high high).value? = some settings.high ∧
    ∃ v, (lookNumber samplesProblems (Float.ofNat Settings.default.samples) samples).value?
      = some v ∧ Number.rational? v = some (settings.samples : Rat) := by
  obtain ⟨hdlow, hdhigh, hdsamples⟩ := problems_defaults
  rw [ofFields]
  simp only
  constructor
  · intro h
    split at h
    case h_2 => cases h
    rename_i f a b v hfunction hlow hhigh hsamples
    -- all fields have values, so their problems are those of the values
    rw [problems_lookNumber hdlow hlow, problems_lookNumber hdhigh hhigh,
      problems_lookNumber hdsamples hsamples] at h
    by_cases hrange : a < b
    · rw [if_pos hrange] at h
      split at h
      case isFalse => cases h
      rename_i hempty
      simp only [List.isEmpty_iff, List.append_eq_nil_iff, issuesAt_eq_nil_iff,
        limitProblems_eq_nil_iff, samplesProblems_eq_nil_iff] at hempty
      obtain ⟨⟨⟨⟨-, hlow'⟩, hhigh'⟩, k, htwo, hmax, hk⟩, -⟩ := hempty
      cases h
      have hcount := Number.toNat_of_rational? hk
      refine ⟨⟨hlow', hhigh', hrange, ?_, ?_⟩, hfunction, hlow, hhigh, v, hsamples, ?_⟩
      · exact hcount.symm ▸ htwo
      · exact hcount.symm ▸ hmax
      · exact hcount.symm ▸ hk
    · rw [if_neg hrange, if_neg (by simp [issuesAt])] at h
      cases h
  · rintro ⟨hproper, hfunction, hlow, hhigh, v, hsamples, hv⟩
    have hproblems : (lookText Settings.default.function function).problems = [] :=
      problems_lookText hfunction
    have hcount : samplesProblems v = [] := (samplesProblems_eq_nil_iff v).mpr
      ⟨settings.samples, hproper.two_le_samples, hproper.samples_le, hv⟩
    rw [hfunction, hlow, hhigh, hsamples, hproblems, problems_lookNumber hdlow hlow,
      problems_lookNumber hdhigh hhigh, problems_lookNumber hdsamples hsamples, hcount,
      (limitProblems_eq_nil_iff _).mpr hproper.low_finite,
      (limitProblems_eq_nil_iff _).mpr hproper.high_finite]
    simp only [if_pos hproper.low_lt_high, Number.toNat_of_rational? hv]
    rfl

/-- Settings that are not refused are proper. -/
lemma proper_of_ofFields (h : ofFields function low high samples = .ok settings) :
    settings.Proper :=
  (ofFields_eq_ok_iff.mp h).1

end Settings

end FunctionPlot
