/-
# Limits as numbers and as texts

A request may have its limits as numbers or as texts, and a number that is replaced by its text
changes nothing (`Plot.ofRequest_retyped`).  The two kinds of limits are looked at in two ways: the
fields of the settings take numbers, and texts are first read as limits.  Both take the same values,
the defaults for limits that are left out, and so they differ at most in the words of a refusal:
limits in the wrong order are refused as texts already, and as numbers together with all other
problems of the fields.
-/
import FunctionPlot.Proofs.Plot
import FunctionPlot.Proofs.Settings.Limits

namespace FunctionPlot

namespace Input

/-- A limit that is left out, or a finite number other than negative zero. -/
inductive Plain : Input → Prop
  /-- The limit is left out. -/
  | absent : Plain .absent
  /-- The limit is a number. -/
  | number {v : Float} (finite : v.isFinite) (ne : v ≠ Number.negativeZero) : Plain (.number v)

/-- A limit is replaced by its text, or it is left as it is. -/
inductive Retyped : Input → Input → Prop
  /-- The limit is left as it is. -/
  | same (input : Input) : Retyped input input
  /-- A number is replaced by its text. -/
  | written (v : Float) : Retyped (.number v) (.text (Number.written v))

/-- The number that is taken for a limit. -/
def numberOr (default : Float) : Input → Float
  | number v => v
  | _ => default

variable {input input' : Input} {default : Float}

/-- The number that is taken for a plain limit is a limit itself. -/
lemma Plain.numberOr_plain (h : input.Plain) (hdefault : (Input.number default).Plain) :
    (Input.number (input.numberOr default)).Plain := by
  cases h with
  | absent => exact hdefault
  | number finite ne => exact .number finite ne

lemma Plain.isFinite {v : Float} (h : (Input.number v).Plain) : v.isFinite := by
  cases h with
  | number finite ne => exact finite

lemma Plain.not_isText (h : input.Plain) : ¬ input.isText := by
  cases h <;> simp [isText]

/-- A plain limit is looked at like the number that is taken for it. -/
lemma Plain.lookNumber_eq (h : input.Plain) (hdefault : (Input.number default).Plain) :
    Settings.lookNumber Settings.limitProblems default input
      = Settings.lookNumber Settings.limitProblems default (.number (input.numberOr default)) := by
  cases h with
  | absent =>
    have hproblems := (Settings.limitProblems_eq_nil_iff default).mpr hdefault.isFinite
    have hnan := Number.not_isNaN_of_isFinite hdefault.isFinite
    simp only [Settings.lookNumber, numberOr, if_neg hnan, hproblems]
  | number finite ne => rfl

/-- A plain limit is written as a text of the number that is taken for it, be it replaced by its
text or not. -/
lemma Retyped.exists_text (h : input.Retyped input') (hplain : input.Plain)
    (hdefault : (Input.number default).Plain) :
    ∃ t, (input'.orElse (.number default)).toText? = some t ∧
      Limits.number? t = some (input.numberOr default) := by
  have hread {v : Float} (hv : (Input.number v).Plain) :
      Limits.number? (Number.written v) = some v := by
    cases hv with
    | number finite ne => exact Limits.number?_written finite ne
  cases h with
  | written v => exact ⟨Number.written v, rfl, hread hplain⟩
  | same =>
    cases hplain with
    | absent => exact ⟨Number.written default, rfl, hread hdefault⟩
    | @number v finite ne => exact ⟨Number.written v, rfl, hread (.number finite ne)⟩

lemma Retyped.eq_or_isText (h : input.Retyped input') : input' = input ∨ input'.isText := by
  cases h with
  | same => exact .inl rfl
  | written v => exact .inr rfl

/-- The defaults of the limits are plain. -/
lemma plain_defaults : (number Settings.default.low).Plain ∧
    (number Settings.default.high).Plain := by
  constructor
  · exact .number (by decide +kernel) (by decide +kernel)
  · exact .number (by decide +kernel) (by decide +kernel)

end Input

namespace Limits

variable {low high : Text} {limits : Limits}

/-- Two texts with numbers are limits unless the numbers are in the wrong order. -/
lemma ofTexts_eq (hlow : number? low = some limits.low) (hhigh : number? high = some limits.high) :
    ofTexts low high = if limits.high ≤ limits.low then .error .reversed else .ok limits := by
  rw [ofTexts, read, hlow, read, hhigh]
  rfl

end Limits

namespace Settings

/-- Numbers in the wrong order are refused, whatever else there is. -/
lemma exists_error_of_not_lt {function samples : Input} {a b : Float} (h : ¬ a < b) :
    ∃ e, ofFields function (.number a) (.number b) samples = .error e := by
  cases hsettings : ofFields function (.number a) (.number b) samples with
  | error e => exact ⟨e, rfl⟩
  | ok settings =>
    obtain ⟨hproper, -, hlow, hhigh, -⟩ := ofFields_eq_ok_iff.mp hsettings
    have hrange := hproper.low_lt_high
    rw [eq_of_lookNumber hlow, eq_of_lookNumber hhigh] at hrange
    exact absurd hrange h

end Settings

/-! ### The two requests -/

namespace PlotRequest

variable {request : PlotRequest} {low high : Input}

/-- A request with another lower limit and another upper one. -/
def withLimits (request : PlotRequest) (low high : Input) : PlotRequest :=
  { request with low, high }

@[simp] lemma withLimits_withLimits (low high low' high' : Input) :
    (request.withLimits low high).withLimits low' high' = request.withLimits low' high' := rfl

/-- The numbers that are taken for the limits of a request. -/
def limits (request : PlotRequest) : Limits :=
  ⟨request.low.numberOr Settings.default.low, request.high.numberOr Settings.default.high⟩

/-- The limits of a request are left out or finite numbers other than negative zero. -/
structure Plain (request : PlotRequest) : Prop where
  low : request.low.Plain
  high : request.high.Plain

/-- Some of the limits of a request are replaced by their texts. -/
structure Retyped (request : PlotRequest) (low high : Input) : Prop where
  low : request.low.Retyped low
  high : request.high.Retyped high

/-- Plain limits are finite. -/
lemma Plain.isFinite_limits (h : request.Plain) :
    request.limits.low.isFinite ∧ request.limits.high.isFinite := by
  obtain ⟨hdlow, hdhigh⟩ := Input.plain_defaults
  exact ⟨(h.low.numberOr_plain hdlow).isFinite, (h.high.numberOr_plain hdhigh).isFinite⟩

/-- Plain limits are handed on to the settings as they are. -/
lemma Plain.handsOn (h : request.Plain) : request.HandsOn request.low request.high := by
  refine .given ?_
  rintro (htext | htext)
  · exact h.low.not_isText htext
  · exact h.high.not_isText htext

/-- The settings look at plain limits like at the numbers that are taken for them. -/
lemma Plain.ofFields_eq (h : request.Plain) :
    Settings.ofFields request.function request.low request.high request.samples
      = Settings.ofFields request.function (.number request.limits.low)
          (.number request.limits.high) request.samples := by
  obtain ⟨hdlow, hdhigh⟩ := Input.plain_defaults
  rw [Settings.ofFields, h.low.lookNumber_eq hdlow, h.high.lookNumber_eq hdhigh]
  rfl

/-- Plain limits of which some are replaced by their texts are read as the numbers that are taken
for them. -/
lemma Retyped.exists_limitTexts (h : request.Retyped low high) (hplain : request.Plain) :
    ∃ tlow thigh, (request.withLimits low high).LimitTexts tlow thigh ∧
      Limits.ofTexts tlow thigh = if request.limits.high ≤ request.limits.low
        then .error .reversed else .ok request.limits := by
  obtain ⟨hdlow, hdhigh⟩ := Input.plain_defaults
  obtain ⟨tlow, htlow, hlow⟩ := h.low.exists_text hplain.low hdlow
  obtain ⟨thigh, hthigh, hhigh⟩ := h.high.exists_text hplain.high hdhigh
  exact ⟨tlow, thigh, ⟨htlow, hthigh⟩, Limits.ofTexts_eq hlow hhigh⟩

end PlotRequest

namespace Plot

variable {request : PlotRequest} {low high : Input}

/-- A request is refused at the given stage. -/
def RefusedAt (stage : Text) (request : PlotRequest) : Prop :=
  ∃ refusal, ofRequest request = .ok (.error refusal) ∧ refusal.stage = stage

lemma refusedAt_of_refuses {refusal : Refusal} (h : request.Refuses refusal) :
    RefusedAt "settings" request :=
  ⟨refusal, ofRequest_of_refuses h, h.stage_eq⟩

/-- A request with settings is not refused at their stage any more. -/
lemma not_refusedAt_of_accepts {settings : Settings} (h : request.Accepts settings) :
    ¬ RefusedAt "settings" request := by
  rintro ⟨refusal, hrefusal, hstage⟩
  rw [ofRequest, settingsOf_of_accepts h] at hrefusal
  cases hcompile : Expression.compile settings.function request.table with
  | error e =>
    simp only [hcompile] at hrefusal
    cases hrefusal
    have hstages : Text.ofString "compile" ≠ "settings" := by decide
    exact hstages hstage
  | ok expression =>
    simp only [hcompile] at hrefusal
    cases hplot : ofExpression request settings expression <;> rw [hplot] at hrefusal <;>
      cases hrefusal

/-- Plain limits have the same settings as numbers and as texts, or they are refused both times. -/
lemma settingsOf_cases (hplain : request.Plain) (hretyped : request.Retyped low high) :
    settingsOf (request.withLimits low high) = settingsOf request ∨
    (∃ refusal, request.Refuses refusal) ∧
      ∃ refusal, (request.withLimits low high).Refuses refusal := by
  by_cases htyped : (request.withLimits low high).Typed
  case neg =>
    -- no limit has been replaced
    left
    obtain ⟨hlow, hhigh⟩ := not_or.mp htyped
    obtain rfl : low = request.low := hretyped.low.eq_or_isText.resolve_right hlow
    obtain rfl : high = request.high := hretyped.high.eq_or_isText.resolve_right hhigh
    rfl
  obtain ⟨tlow, thigh, htexts, hlimits⟩ := hretyped.exists_limitTexts hplain
  by_cases hreversed : request.limits.high ≤ request.limits.low
  · right
    rw [if_pos hreversed] at hlimits
    have hlt : ¬ request.limits.low < request.limits.high := by
      rw [← Number.not_le_iff_lt hplain.isFinite_limits.1 hplain.isFinite_limits.2]
      exact not_not.mpr hreversed
    obtain ⟨e, he⟩ := Settings.exists_error_of_not_lt hlt
    constructor
    · exact ⟨.settings e, .settings hplain.handsOn (hplain.ofFields_eq.trans he)⟩
    · exact ⟨.limits .reversed, .limits htyped htexts hlimits⟩
  · left
    rw [if_neg hreversed] at hlimits
    rw [settingsOf_of_handsOn hplain.handsOn, hplain.ofFields_eq,
      settingsOf_of_handsOn (.typed htyped htexts hlimits)]
    rfl

lemma ofRequest_congr (h : settingsOf (request.withLimits low high) = settingsOf request) :
    ofRequest (request.withLimits low high) = ofRequest request := by
  rw [ofRequest, h, ofRequest]
  rfl

/-- Limits may be given as numbers or as texts.  If the limits of a request are finite numbers other
than negative zero, or left out, and some of them are replaced by their texts, the request has the
same outcome, unless it is refused for its settings; and it is refused for its settings iff it was
before. -/
theorem ofRequest_retyped (hplain : request.Plain) (hretyped : request.Retyped low high) :
    (¬ RefusedAt "settings" request →
      ofRequest (request.withLimits low high) = ofRequest request) ∧
    (RefusedAt "settings" request ↔ RefusedAt "settings" (request.withLimits low high)) := by
  rcases settingsOf_cases hplain hretyped with heq | ⟨⟨refusal, h⟩, refusal', h'⟩
  · have hsame := ofRequest_congr heq
    constructor
    · intro _
      exact hsame
    · rw [RefusedAt, RefusedAt, hsame]
  · have hrefused := refusedAt_of_refuses h
    constructor
    · intro hnot
      exact absurd hrefused hnot
    · exact iff_of_true hrefused (refusedAt_of_refuses h')

/-- Limits with exponents may be given in both ways, and so may limits in the wrong order, of which
one is left out. -/
theorem ofRequest_retyped_exponents :
    ofRequest (everythingLeftOut.withLimits (.text "1e-7") (.text "1e+21"))
      = ofRequest (everythingLeftOut.withLimits (.number 1e-7) (.number 1e21)) ∧
    RefusedAt "settings" (everythingLeftOut.withLimits (.number 10.5) .absent) ∧
    RefusedAt "settings" (everythingLeftOut.withLimits (.text "10.5") .absent) := by
  have hlow : Number.written 1e-7 = "1e-7" := by decide +kernel
  have hhigh : Number.written 1e21 = "1e+21" := by decide +kernel
  have hwritten : Number.written 10.5 = "10.5" := by decide +kernel
  rw [← hlow, ← hhigh, ← hwritten]
  constructor
  · have hplain : (everythingLeftOut.withLimits (.number 1e-7) (.number 1e21)).Plain :=
      ⟨.number (by decide +kernel) (by decide +kernel),
        .number (by decide +kernel) (by decide +kernel)⟩
    have haccepts : (everythingLeftOut.withLimits (.number 1e-7) (.number 1e21)).Accepts
        ⟨"x", 1e-7, 1e21, 501⟩ := ⟨_, _, hplain.handsOn, by decide +kernel⟩
    have hsame := (ofRequest_retyped hplain ⟨.written _, .written _⟩).1
      (not_refusedAt_of_accepts haccepts)
    rwa [PlotRequest.withLimits_withLimits] at hsame
  · have hplain : (everythingLeftOut.withLimits (.number 10.5) .absent).Plain :=
      ⟨.number (by decide +kernel) (by decide +kernel), .absent⟩
    have hreversed : ¬ (everythingLeftOut.withLimits (.number 10.5) .absent).limits.low
        < (everythingLeftOut.withLimits (.number 10.5) .absent).limits.high := by decide +kernel
    obtain ⟨e, he⟩ := Settings.exists_error_of_not_lt hreversed
    have hrefused := refusedAt_of_refuses (.settings hplain.handsOn (hplain.ofFields_eq.trans he))
    have hrefused' := (ofRequest_retyped hplain ⟨.written _, .same _⟩).2.mp hrefused
    rw [PlotRequest.withLimits_withLimits] at hrefused'
    exact ⟨hrefused, hrefused'⟩

end Plot

end FunctionPlot
