/-
# What is wrong with settings

Settings are read from an input of any shape (`Settings.ofInput_exact`).  They are refused just if
the input is no record, if the input of some field is not valid for the field, or if the range is
not in order, where defaults stand for what is left out.  The issues are those of the fields, one
field after the other, and behind them that the range is reversed.  The latter is looked at as soon
as the inputs of all fields fit (`Settings.Reversed`), also if the values are refused.

The settings that are read from an input hold what is given (`Settings.Holds`), and they are read
again from themselves.
-/
import FunctionPlot.Proofs.Settings

namespace FunctionPlot

/-- The fields of an input that can be settings; no fields are given if it is left out. -/
def Input.fields? : Input → Option (List (Text × Input))
  | absent => some []
  | record fields => some fields
  | _ => none

namespace Settings

/-- The fields of settings. -/
inductive Field where
  /-- The text of the function. -/
  | function
  /-- The lower end of the range. -/
  | low
  /-- The upper end of the range. -/
  | high
  /-- The number of points. -/
  | samples
deriving DecidableEq

namespace Field

/-- The name of a field in an input. -/
def name : Field → Text
  | function => "function"
  | low => "from"
  | high => "to"
  | samples => "samples"

/-- The fields, in the order of their issues. -/
def all : List Field := [function, low, high, samples]

/-- The problems of a field with an input. -/
def problems : Field → Input → List Problem
  | function, input => (lookText Settings.default.function input).problems
  | low, input => (lookNumber limitProblems Settings.default.low input).problems
  | high, input => (lookNumber limitProblems Settings.default.high input).problems
  | samples, input =>
    (lookNumber samplesProblems (Float.ofNat Settings.default.samples) input).problems

/-- An input has the shape of a field. -/
inductive Fits : Field → Input → Prop
  /-- Each field can be left out. -/
  | absent (field : Field) : Fits field .absent
  /-- The function is a text. -/
  | text (value : Text) : Fits function (.text value)
  /-- All others are numbers. -/
  | number {field : Field} {value : Float} (hfield : field ≠ function) (h : ¬ value.isNaN) :
      Fits field (.number value)

/-- An input is valid for a field. -/
inductive Valid : Field → Input → Prop
  /-- Each field can be left out. -/
  | absent (field : Field) : Valid field .absent
  /-- The function is any text. -/
  | text (value : Text) : Valid function (.text value)
  /-- The ends of the range are finite. -/
  | limit {field : Field} {value : Float} (hfield : field = low ∨ field = high)
      (h : value.isFinite) : Valid field (.number value)
  /-- The number of points is an integer within its bounds. -/
  | count {value : Float} {n : Nat} (h : Number.rational? value = some (n : Rat)) (two_le : 2 ≤ n)
      (le_max : n ≤ maxSamples) : Valid samples (.number value)

end Field

/-- The input of a field. -/
def given (fields : List (Text × Input)) (field : Field) : Input := .field fields field.name

/-- What is taken for an input: the value that is given, or the default if it is left out. -/
inductive Takes {α : Type} (embed : α → Input) (default : α) : Input → α → Prop
  /-- The default is taken. -/
  | absent : Takes embed default .absent default
  /-- The value is taken. -/
  | given (value : α) : Takes embed default (embed value) value

/-- Settings hold what is taken for the inputs of their fields. -/
structure Holds (inputs : Field → Input) (settings : Settings) : Prop where
  function : Takes .text default.function (inputs .function) settings.function
  low : Takes .number default.low (inputs .low) settings.low
  high : Takes .number default.high (inputs .high) settings.high
  samples : ∃ v, Takes .number (Float.ofNat default.samples) (inputs .samples) v ∧
    Number.rational? v = some (settings.samples : Rat)

/-- The ends that are taken for the range are in order. -/
def InOrder (inputs : Field → Input) : Prop :=
  ∃ a b, Takes .number default.low (inputs .low) a ∧ Takes .number default.high (inputs .high) b ∧
    a < b

/-- The issues of the single fields, one field after the other. -/
def fieldIssues (inputs : Field → Input) : List Issue :=
  Field.all.flatMap fun field => issuesAt field.name (field.problems (inputs field))

/-- All inputs fit, and the range is not in order. -/
structure Reversed (inputs : Field → Input) : Prop where
  fits : ∀ field : Field, field.Fits (inputs field)
  not_inOrder : ¬ InOrder inputs

variable {v default : Float} {t : Text} {input : Input} {inputs : Field → Input} {field : Field}
  {problems : Float → List Problem} {settings : Settings} {fields : List (Text × Input)}

/-! ### Single fields -/

lemma Takes.unique {w : Float} (hv : Takes .number default input v)
    (hw : Takes .number default input w) : v = w := by
  cases hv <;> cases hw <;> rfl

lemma lookText_eq_some_iff {default : Text} :
    (lookText default input).value? = some t ↔ Takes .text default input t := by
  constructor
  · intro h
    cases input with
    | absent =>
      cases h
      exact .absent
    | text value =>
      cases h
      exact .given t
    | null | boolean value | number value | list items | record fields => cases h
  · rintro ⟨⟩ <;> rfl

/-- Of numbers all but `NaN` are taken. -/
lemma lookNumber_eq_some_iff (hdefault : ¬ default.isNaN) :
    (lookNumber problems default input).value? = some v ↔
      Takes .number default input v ∧ ¬ v.isNaN := by
  constructor
  · intro h
    cases input with
    | absent =>
      cases h
      exact ⟨.absent, hdefault⟩
    | number value =>
      rw [lookNumber] at h
      split at h
      · cases h
      · rename_i hnan
        cases h
        exact ⟨.given _, hnan⟩
    | null | boolean value | text value | list items | record fields => cases h
  · rintro ⟨htakes, hnan⟩
    cases htakes with
    | absent => rfl
    | given value => rw [lookNumber, if_neg hnan]

namespace Field

lemma fits_function_iff :
    function.Fits input ↔ ∃ t, Takes .text Settings.default.function input t := by
  constructor
  · rintro (_ | t | ⟨hfield, -⟩)
    · exact ⟨_, .absent⟩
    · exact ⟨t, .given t⟩
    · exact absurd rfl hfield
  · rintro ⟨t, ⟨⟩⟩
    · exact .absent _
    · exact .text t

lemma fits_number_iff (hfield : field ≠ function) (hdefault : ¬ default.isNaN) :
    field.Fits input ↔ ∃ v, Takes .number default input v ∧ ¬ v.isNaN := by
  constructor
  · rintro (_ | _ | ⟨-, hnan⟩)
    · exact ⟨default, .absent, hdefault⟩
    · exact absurd rfl hfield
    · exact ⟨_, .given _, hnan⟩
  · rintro ⟨v, ⟨⟩, hnan⟩
    · exact .absent field
    · exact .number hfield hnan

lemma valid_limit_iff (hfield : field = low ∨ field = high) :
    field.Valid (.number v) ↔ v.isFinite := by
  constructor
  · rintro (_ | _ | ⟨-, h⟩ | _)
    · exact h
    · simp at hfield
  · exact .limit hfield

lemma valid_samples_iff : samples.Valid (.number v) ↔ samplesProblems v = [] := by
  rw [samplesProblems_eq_nil_iff]
  constructor
  · rintro (_ | _ | ⟨hfield, -⟩ | ⟨h, htwo, hmax⟩)
    · simp at hfield
    · exact ⟨_, htwo, hmax, h⟩
  · rintro ⟨n, htwo, hmax, h⟩
    exact .count h htwo hmax

/-- An end that is taken for the range is finite just if its input is valid. -/
lemma valid_iff_isFinite (hfield : field = low ∨ field = high) (hdefault : default.isFinite)
    (h : Takes .number default input v) : field.Valid input ↔ v.isFinite := by
  cases h with
  | absent => exact iff_of_true (.absent field) hdefault
  | given value => exact valid_limit_iff hfield

lemma valid_function_iff :
    function.Valid input ↔ ∃ t, Takes .text Settings.default.function input t := by
  constructor
  · rintro (_ | t | ⟨hfield, -⟩)
    · exact ⟨_, .absent⟩
    · exact ⟨t, .given t⟩
    · simp at hfield
  · rintro ⟨t, ⟨⟩⟩
    · exact .absent _
    · exact .text t

/-- The input of the number of points is valid just if an integer within the bounds is taken. -/
lemma valid_samples_iff_takes : samples.Valid input ↔
    ∃ v, ∃ n : Nat, Takes .number (Float.ofNat Settings.default.samples) input v ∧
      Number.rational? v = some (n : Rat) ∧ 2 ≤ n ∧ n ≤ maxSamples := by
  constructor
  · rintro (_ | _ | ⟨hfield, -⟩ | ⟨h, htwo, hmax⟩)
    · exact ⟨_, 501, .absent, Number.rational?_ofNat (by norm_num [Settings.default]),
        by norm_num, by norm_num [maxSamples]⟩
    · simp at hfield
    · exact ⟨_, _, .given _, h, htwo, hmax⟩
  · rintro ⟨v, n, ⟨⟩, h, htwo, hmax⟩
    · exact .absent _
    · exact .count h htwo hmax

lemma not_isNaN_of_samplesProblems (h : samplesProblems v = []) : ¬ v.isNaN := by
  obtain ⟨n, -, -, hn⟩ := (samplesProblems_eq_nil_iff v).mp h
  exact (Number.rational?_eq_some_iff.mp hn).1

lemma isFinite_defaults : Settings.default.low.isFinite ∧ Settings.default.high.isFinite := by
  obtain ⟨hlow, hhigh, -⟩ := problems_defaults
  exact ⟨(limitProblems_eq_nil_iff _).mp hlow, (limitProblems_eq_nil_iff _).mp hhigh⟩

lemma not_isNaN_defaults : ¬ Settings.default.low.isNaN ∧ ¬ Settings.default.high.isNaN ∧
    ¬ (Float.ofNat Settings.default.samples).isNaN := by
  obtain ⟨hlow, hhigh⟩ := isFinite_defaults
  obtain ⟨-, -, hsamples⟩ := problems_defaults
  exact ⟨Number.not_isNaN_of_isFinite hlow, Number.not_isNaN_of_isFinite hhigh,
    not_isNaN_of_samplesProblems hsamples⟩

lemma problems_lookText_eq_nil_iff :
    (lookText t input).problems = [] ↔ function.Valid input := by
  cases input with
  | absent => exact iff_of_true rfl (.absent _)
  | text value => exact iff_of_true rfl (.text value)
  | number value =>
    refine iff_of_false (by simp [lookText]) ?_
    rintro (_ | _ | ⟨hfield, -⟩ | _)
    simp at hfield
  | null | boolean value | list items | record fields =>
    refine iff_of_false (by simp [lookText]) ?_
    rintro ⟨⟩

lemma problems_lookNumber_eq_nil_iff (hfield : field ≠ function)
    (h : ∀ v, field.Valid (.number v) ↔ ¬ v.isNaN ∧ problems v = []) :
    (lookNumber problems default input).problems = [] ↔ field.Valid input := by
  cases input with
  | absent => exact iff_of_true rfl (.absent field)
  | number value =>
    rw [h, lookNumber]
    split
    · rename_i hnan
      exact iff_of_false (by simp) fun hvalue => hvalue.1 hnan
    · rename_i hnan
      exact (and_iff_right hnan).symm
  | text value =>
    refine iff_of_false (by simp [lookNumber]) ?_
    rintro ⟨⟩
    exact hfield rfl
  | null | boolean value | list items | record fields =>
    refine iff_of_false (by simp [lookNumber]) ?_
    rintro ⟨⟩

/-- A field has no problems if its input is valid. -/
theorem problems_eq_nil_iff (field : Field) (input : Input) :
    field.problems input = [] ↔ field.Valid input := by
  have hlimit (v : Float) : v.isFinite ↔ ¬ v.isNaN ∧ limitProblems v = [] := by
    rw [limitProblems_eq_nil_iff]
    exact ⟨fun h => ⟨Number.not_isNaN_of_isFinite h, h⟩, And.right⟩
  cases field with
  | function => exact problems_lookText_eq_nil_iff
  | low =>
    refine problems_lookNumber_eq_nil_iff (by simp) fun v => ?_
    rw [valid_limit_iff (.inl rfl), hlimit]
  | high =>
    refine problems_lookNumber_eq_nil_iff (by simp) fun v => ?_
    rw [valid_limit_iff (.inr rfl), hlimit]
  | samples =>
    refine problems_lookNumber_eq_nil_iff (by simp) fun v => ?_
    rw [valid_samples_iff]
    exact ⟨fun h => ⟨not_isNaN_of_samplesProblems h, h⟩, And.right⟩

end Field

/-! ### All fields -/

lemma Field.mem_all (field : Field) : field ∈ all := by
  cases field <;> simp [all]

/-- The names in the issues of the fields are those of the fields with invalid inputs. -/
lemma mem_path_fieldIssues {path : Text} : path ∈ (fieldIssues inputs).map Issue.path ↔
    ∃ field : Field, field.name = path ∧ ¬ field.Valid (inputs field) := by
  rw [fieldIssues, List.map_flatMap, List.mem_flatMap]
  refine exists_congr fun field => ?_
  rw [and_iff_right field.mem_all, ← field.problems_eq_nil_iff, List.mem_map]
  constructor
  · rintro ⟨issue, hissue, rfl⟩
    obtain ⟨problem, hproblem, rfl⟩ := List.mem_map.mp hissue
    exact ⟨rfl, List.ne_nil_of_mem hproblem⟩
  · rintro ⟨rfl, hproblems⟩
    obtain ⟨problem, hproblem⟩ := List.exists_mem_of_ne_nil _ hproblems
    exact ⟨_, List.mem_map_of_mem hproblem, rfl⟩

/-- All inputs fit just if each field has a value. -/
lemma forall_fits_iff : (∀ field : Field, field.Fits (inputs field)) ↔ ∃ t a b v,
    (lookText Settings.default.function (inputs .function)).value? = some t ∧
    (lookNumber limitProblems Settings.default.low (inputs .low)).value? = some a ∧
    (lookNumber limitProblems Settings.default.high (inputs .high)).value? = some b ∧
    (lookNumber samplesProblems (Float.ofNat Settings.default.samples) (inputs .samples)).value?
      = some v := by
  obtain ⟨hlow, hhigh, hsamples⟩ := Field.not_isNaN_defaults
  simp only [lookText_eq_some_iff, lookNumber_eq_some_iff hlow, lookNumber_eq_some_iff hhigh,
    lookNumber_eq_some_iff hsamples]
  constructor
  · intro h
    obtain ⟨t, ht⟩ := Field.fits_function_iff.mp (h .function)
    obtain ⟨a, ha⟩ := (Field.fits_number_iff (by simp) hlow).mp (h .low)
    obtain ⟨b, hb⟩ := (Field.fits_number_iff (by simp) hhigh).mp (h .high)
    obtain ⟨v, hv⟩ := (Field.fits_number_iff (by simp) hsamples).mp (h .samples)
    exact ⟨t, a, b, v, ht, ha, hb, hv⟩
  · rintro ⟨t, a, b, v, ht, ha, hb, hv⟩ field
    cases field with
    | function => exact Field.fits_function_iff.mpr ⟨t, ht⟩
    | low => exact (Field.fits_number_iff (by simp) hlow).mpr ⟨a, ha⟩
    | high => exact (Field.fits_number_iff (by simp) hhigh).mpr ⟨b, hb⟩
    | samples => exact (Field.fits_number_iff (by simp) hsamples).mpr ⟨v, hv⟩

/-- The range is in order just if its ends are. -/
lemma inOrder_iff {a b : Float}
    (ha : (lookNumber limitProblems Settings.default.low (inputs .low)).value? = some a)
    (hb : (lookNumber limitProblems Settings.default.high (inputs .high)).value? = some b) :
    InOrder inputs ↔ a < b := by
  obtain ⟨hlow, hhigh, -⟩ := Field.not_isNaN_defaults
  obtain ⟨ha, -⟩ := (lookNumber_eq_some_iff hlow).mp ha
  obtain ⟨hb, -⟩ := (lookNumber_eq_some_iff hhigh).mp hb
  constructor
  · rintro ⟨a', b', ha', hb', hlt⟩
    rwa [ha'.unique ha, hb'.unique hb] at hlt
  · exact fun hlt => ⟨a, b, ha, hb, hlt⟩

/-- A refusal has the issues of the fields and, behind them, one if the range is reversed. -/
lemma ofFields_eq_error {e : SettingsError}
    (h : ofFields (inputs .function) (inputs .low) (inputs .high) (inputs .samples) = .error e) :
    ∃ last, e.issues = fieldIssues inputs ++ last ∧
      (Reversed inputs ∧ last = issuesAt Field.low.name [.reversed] ∨
        ¬ Reversed inputs ∧ last = []) := by
  have hissues : issuesAt "function" (Field.problems .function (inputs .function)) ++
      issuesAt "from" (Field.problems .low (inputs .low)) ++
      issuesAt "to" (Field.problems .high (inputs .high)) ++
      issuesAt "samples" (Field.problems .samples (inputs .samples)) = fieldIssues inputs := by
    simp [fieldIssues, Field.all, Field.name]
  rw [ofFields] at h
  simp only at h
  split at h
  · -- all fields have values, and the range is looked at
    rename_i t a b v ht ha hb hv
    have hfits := forall_fits_iff.mpr ⟨t, a, b, v, ht, ha, hb, hv⟩
    have horder := inOrder_iff ha hb
    by_cases hlt : a < b
    · rw [if_pos hlt] at h
      split at h
      · cases h
      cases h
      refine ⟨[], congrArg (· ++ []) hissues, .inr ⟨fun hreversed => ?_, rfl⟩⟩
      exact hreversed.not_inOrder (horder.mpr hlt)
    · rw [if_neg hlt] at h
      split at h
      · cases h
      cases h
      exact ⟨_, congrArg (· ++ _) hissues, .inl ⟨⟨hfits, fun hin => hlt (horder.mp hin)⟩, rfl⟩⟩
  · -- some field has no value, so its input does not fit
    rename_i hnone
    cases h
    refine ⟨[], ?_, .inr ⟨fun hreversed => ?_, rfl⟩⟩
    · rw [List.append_nil]
      exact hissues
    · obtain ⟨t, a, b, v, ht, ha, hb, hv⟩ := forall_fits_iff.mp hreversed.fits
      exact hnone t a b v ht ha hb hv

/-- Settings that are read from fields are the proper ones that hold what is taken for them. -/
lemma ofFields_eq_ok_iff_holds :
    ofFields (inputs .function) (inputs .low) (inputs .high) (inputs .samples) = .ok settings ↔
      settings.Proper ∧ Holds inputs settings := by
  obtain ⟨hlow, hhigh, hsamples⟩ := Field.not_isNaN_defaults
  rw [ofFields_eq_ok_iff, lookText_eq_some_iff]
  simp only [lookNumber_eq_some_iff hlow, lookNumber_eq_some_iff hhigh,
    lookNumber_eq_some_iff hsamples]
  refine and_congr_right fun hproper => ?_
  constructor
  · rintro ⟨hfunction, ⟨hlow, -⟩, ⟨hhigh, -⟩, v, ⟨hsamples, -⟩, hv⟩
    exact ⟨hfunction, hlow, hhigh, v, hsamples, hv⟩
  · rintro ⟨hfunction, hlow, hhigh, v, hsamples, hv⟩
    refine ⟨hfunction, ⟨hlow, Number.not_isNaN_of_isFinite hproper.low_finite⟩,
      ⟨hhigh, Number.not_isNaN_of_isFinite hproper.high_finite⟩, v, ⟨hsamples, ?_⟩, hv⟩
    exact (Number.rational?_eq_some_iff.mp hv).1

/-- Settings are read from fields just if all inputs are valid and the range is in order. -/
lemma exists_ofFields_eq_ok_iff : (∃ settings,
      ofFields (inputs .function) (inputs .low) (inputs .high) (inputs .samples) = .ok settings) ↔
    (∀ field : Field, field.Valid (inputs field)) ∧ InOrder inputs := by
  obtain ⟨hlow, hhigh⟩ := Field.isFinite_defaults
  simp only [ofFields_eq_ok_iff_holds]
  constructor
  · rintro ⟨settings, hproper, hholds⟩
    refine ⟨fun field => ?_, settings.low, settings.high, hholds.low, hholds.high,
      hproper.low_lt_high⟩
    cases field with
    | function => exact Field.valid_function_iff.mpr ⟨_, hholds.function⟩
    | low => exact (Field.valid_iff_isFinite (.inl rfl) hlow hholds.low).mpr hproper.low_finite
    | high => exact (Field.valid_iff_isFinite (.inr rfl) hhigh hholds.high).mpr hproper.high_finite
    | samples =>
      obtain ⟨v, htakes, hv⟩ := hholds.samples
      exact Field.valid_samples_iff_takes.mpr
        ⟨v, _, htakes, hv, hproper.two_le_samples, hproper.samples_le⟩
  · rintro ⟨hvalid, a, b, ha, hb, hlt⟩
    obtain ⟨t, ht⟩ := Field.valid_function_iff.mp (hvalid .function)
    obtain ⟨v, n, hv, hn, htwo, hmax⟩ := Field.valid_samples_iff_takes.mp (hvalid .samples)
    refine ⟨⟨t, a, b, n⟩, ⟨?_, ?_, hlt, htwo, hmax⟩, ht, ha, hb, v, hv, hn⟩
    · exact (Field.valid_iff_isFinite (.inl rfl) hlow ha).mp (hvalid .low)
    · exact (Field.valid_iff_isFinite (.inr rfl) hhigh hb).mp (hvalid .high)

/-! ### Inputs -/

lemma ofInput_of_fields (h : input.fields? = some fields) :
    ofInput input = ofFields (given fields .function) (given fields .low) (given fields .high)
      (given fields .samples) := by
  cases input with
  | absent =>
    cases h
    rfl
  | record more =>
    cases h
    rfl
  | null | boolean value | number value | text value | list items => cases h

lemma ofInput_of_no_fields (h : input.fields? = none) :
    ofInput input = .error ⟨issuesAt "(root)" [.wrongShape "object" input.shape]⟩ := by
  cases input with
  | absent | record more => cases h
  | null | boolean value | number value | text value | list items => rfl

/-- Proper settings are read from themselves. -/
lemma ofInput_toInput (h : settings.Proper) : ofInput settings.toInput = .ok settings := by
  have hcount : Number.rational? (Float.ofNat settings.samples) = some (settings.samples : Rat) :=
    Number.rational?_ofNat (h.samples_le.trans_lt (by norm_num [maxSamples]))
  rw [ofInput_of_fields rfl]
  exact ofFields_eq_ok_iff_holds.mpr ⟨h, .given _, .given _, .given _, _, .given _, hcount⟩

/-- Settings are read from an input just if it is a record or left out, the inputs of all fields are
valid and the range is in order.  Then they hold what is given, or the defaults, and are read again
from themselves.  Otherwise an input without fields has one issue as a whole; and an input with
fields has the issues of the fields in their order, with one behind them if the range is reversed,
so that the names in the issues are those of the fields with invalid inputs, and that of the lower
end if the range is reversed. -/
theorem ofInput_exact (input : Input) :
    ((∃ settings, ofInput input = .ok settings) ↔ ∃ fields, input.fields? = some fields ∧
      (∀ field : Field, field.Valid (given fields field)) ∧ InOrder (given fields)) ∧
    (∀ settings, ofInput input = .ok settings →
      (∃ fields, input.fields? = some fields ∧ Holds (given fields) settings) ∧
      ofInput settings.toInput = .ok settings) ∧
    ∀ e, ofInput input = .error e →
      (input.fields? = none → e.issues.map Issue.path = ["(root)"]) ∧
      ∀ fields, input.fields? = some fields →
        (∃ last, e.issues = fieldIssues (given fields) ++ last ∧
          (Reversed (given fields) ∧ last = issuesAt Field.low.name [.reversed] ∨
            ¬ Reversed (given fields) ∧ last = [])) ∧
        ∀ path, path ∈ e.issues.map Issue.path ↔
          (∃ field : Field, field.name = path ∧ ¬ field.Valid (given fields field)) ∨
            path = Field.low.name ∧ Reversed (given fields) := by
  cases hfields : input.fields? with
  | none =>
    have hrefused := ofInput_of_no_fields hfields
    refine ⟨iff_of_false ?_ (by simp), fun settings h => ?_, fun e h => ⟨fun _ => ?_, by simp⟩⟩
    · rintro ⟨settings, h⟩
      cases hrefused.symm.trans h
    · cases hrefused.symm.trans h
    · cases hrefused.symm.trans h
      rfl
  | some fields =>
    rw [ofInput_of_fields hfields]
    simp only [Option.some.injEq, exists_eq_left', exists_ofFields_eq_ok_iff, true_and]
    refine ⟨fun settings h => ?_, fun e h => ⟨by simp, ?_⟩⟩
    · obtain ⟨hproper, hholds⟩ := ofFields_eq_ok_iff_holds.mp h
      exact ⟨hholds, ofInput_toInput hproper⟩
    · rintro _ rfl
      obtain ⟨last, hissues, hlast⟩ := ofFields_eq_error h
      refine ⟨⟨last, hissues, hlast⟩, fun path => ?_⟩
      rw [hissues, List.map_append, List.mem_append, mem_path_fieldIssues]
      -- the last issue is all that is not about a single field
      refine or_congr_right ?_
      rcases hlast with ⟨hreversed, rfl⟩ | ⟨hreversed, rfl⟩
      · simp [issuesAt, hreversed]
      · simp [hreversed]

/-- The upper end and the number of points are refused, and still the range is looked at.  An upper
end alone is enough for settings. -/
theorem ofInput_exact_infinite :
    (∃ e, ofInput (.record [("from", .number 2), ("to", .number (-Number.infinity)),
        ("samples", .number 1)]) = .error e ∧
      e.issues.map Issue.path = ["to", "samples", "from"] ∧
      Reversed (given [("from", .number 2), ("to", .number (-Number.infinity)),
        ("samples", .number 1)])) ∧
    ∃ settings, ofInput (.record [("to", .number 5)]) = .ok settings ∧
      settings = ⟨"x", 0, 5, 501⟩ ∧ ofInput settings.toInput = .ok settings := by
  constructor
  · obtain ⟨-, -, herror⟩ := ofInput_exact (.record [("from", .number 2),
      ("to", .number (-Number.infinity)), ("samples", .number 1)])
    have hrefused : ofInput (.record [("from", .number 2), ("to", .number (-Number.infinity)),
        ("samples", .number 1)]) = .error ⟨[⟨"to", Problem.notFinite.message⟩,
          ⟨"samples", (Problem.tooSmall 2).message⟩, ⟨"from", Problem.reversed.message⟩]⟩ := by
      decide +kernel
    obtain ⟨-, hpaths⟩ := (herror _ hrefused).2 _ rfl
    refine ⟨_, hrefused, rfl, ?_⟩
    rcases (hpaths "from").mp (by simp) with ⟨field, hname, hinvalid⟩ | ⟨-, hreversed⟩
    · -- the lower end is valid
      cases field with
      | low => exact absurd (.limit (.inl rfl) (by decide +kernel)) hinvalid
      | function | high | samples => exact absurd hname (by decide)
    · exact hreversed
  · obtain ⟨-, hread, -⟩ := ofInput_exact (.record [("to", .number 5)])
    have hsettings : ofInput (.record [("to", .number 5)]) = .ok ⟨"x", 0, 5, 501⟩ := by
      decide +kernel
    exact ⟨_, hsettings, rfl, (hread _ hsettings).2⟩

end Settings

end FunctionPlot
