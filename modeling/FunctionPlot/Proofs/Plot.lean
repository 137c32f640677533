/-
# What becomes of a plot

Every request comes to one of four ends (`Plot.ofRequest_outcome`): its settings are refused, its
function is no formula over the table, there is no plot for a reason that is no mistake of the user,
or there is a plot.  Such reasons are that a limit or a variable cannot be written as a text, that
there is no variable to sample, and that the function has another variable.  Nothing else goes
wrong: settings that are not refused can be sampled, the heights are finite, and so the curve has
bounds, and these can be widened to an axis.
-/
import FunctionPlot.Plot
import FunctionPlot.Proofs.Expression.Sampled

namespace FunctionPlot

namespace PlotRequest

/-! ### What a request comes to -/

/-- A limit of a request is given as a text. -/
def Typed (request : PlotRequest) : Prop := request.low.isText ∨ request.high.isText

/-- The texts of the limits of a request.  A missing limit has the text of its default. -/
def LimitTexts (request : PlotRequest) (low high : Text) : Prop :=
  (request.low.orElse (.number Settings.default.low)).toText? = some low ∧
    (request.high.orElse (.number Settings.default.high)).toText? = some high

/-- The limits that are handed on to the settings: those of the request as they are, or the numbers
of their texts. -/
inductive HandsOn (request : PlotRequest) : Input → Input → Prop
  /-- No limit is a text. -/
  | given (h : ¬ request.Typed) : HandsOn request request.low request.high
  /-- A limit is a text, and both can be read. -/
  | typed {low high : Text} {limits : Limits} (h : request.Typed)
      (texts : request.LimitTexts low high) (limits_eq : Limits.ofTexts low high = .ok limits) :
      HandsOn request (.number limits.low) (.number limits.high)

/-- A request with some settings that are not refused. -/
def Accepts (request : PlotRequest) (settings : Settings) : Prop :=
  ∃ low high, request.HandsOn low high ∧
    Settings.ofFields request.function low high request.samples = .ok settings

lemma Accepts.proper {request : PlotRequest} {settings : Settings}
    (h : request.Accepts settings) : settings.Proper := by
  obtain ⟨low, high, -, hfields⟩ := h
  exact Settings.proper_of_ofFields hfields

/-- The settings of a request are refused. -/
inductive Refuses (request : PlotRequest) : Refusal → Prop
  /-- The texts of the limits are refused. -/
  | limits {low high : Text} {e : LimitsError} (h : request.Typed)
      (texts : request.LimitTexts low high) (limits_eq : Limits.ofTexts low high = .error e) :
      Refuses request (.limits e)
  /-- The fields are refused. -/
  | settings {low high : Input} {e : SettingsError} (h : request.HandsOn low high)
      (settings_eq : Settings.ofFields request.function low high request.samples = .error e) :
      Refuses request (.settings e)

/-- A refusal of settings is one at their stage. -/
lemma Refuses.stage_eq {request : PlotRequest} {refusal : Refusal} (h : request.Refuses refusal) :
    refusal.stage = "settings" := by
  cases h <;> rfl

/-- The limits of a request must be written as texts, and they cannot. -/
def Unwritable (request : PlotRequest) : Prop :=
  request.Typed ∧ ∀ low high, ¬ request.LimitTexts low high

/-- The variable that a request samples. -/
inductive Samples (request : PlotRequest) : Input → Prop
  /-- The variable of the request. -/
  | given (h : ¬ request.sampled.isBlank) : Samples request request.sampled
  /-- The first independent variable of the table. -/
  | first {name : Text} {rest : List Text} (h : request.sampled.isBlank)
      (first_eq : request.table.independentVariables = name :: rest) (name_ne : name ≠ []) :
      Samples request (.text name)

/-- Why an expression cannot be sampled. -/
inductive Throws (request : PlotRequest) (expression : Expression) : PlotError → Prop
  /-- No variable is given, and the table has none with a name. -/
  | noVariable (h : request.sampled.isBlank)
      (nameless : ∀ name rest, request.table.independentVariables = name :: rest → name = []) :
      Throws request expression .noVariable
  /-- What is given as the variable cannot be written as a text. -/
  | unwritable {sampled : Input} (h : request.Samples sampled) (text_eq : sampled.toText? = none) :
      Throws request expression .unwritable
  /-- The expression has another free variable. -/
  | otherVariable {sampled : Input} {name other : Text} {before after : List Text}
      (h : request.Samples sampled) (text_eq : sampled.toText? = some name)
      (freeVariables_eq : expression.freeVariables = before ++ other :: after)
      (before_eq : ∀ name ∈ before, sampled = .text name) (other_ne : sampled ≠ .text other) :
      Throws request expression (.sampling (.otherVariable other name))

end PlotRequest

namespace Plot

variable {request : PlotRequest} {settings : Settings} {expression : Expression} {sampled : Input}
  {refusal : Refusal} {e : PlotError}

/-! ### The settings -/

lemma typed_iff : (request.low.isText || request.high.isText) = true ↔ request.Typed :=
  Bool.or_eq_true_iff

lemma settingsOf_of_handsOn {low high : Input} (h : request.HandsOn low high) :
    settingsOf request = .ok
      ((Settings.ofFields request.function low high request.samples).mapError .settings) := by
  rw [settingsOf]
  cases h with
  | given h => rw [if_neg (typed_iff.not.mpr h)]
  | typed h texts limits_eq =>
    rw [if_pos (typed_iff.mpr h)]
    simp only [texts.1, texts.2, limits_eq]

lemma settingsOf_of_accepts (h : request.Accepts settings) :
    settingsOf request = .ok (.ok settings) := by
  obtain ⟨low, high, hlimits, hfields⟩ := h
  rw [settingsOf_of_handsOn hlimits, hfields]
  rfl

/-- A request has one outcome of its settings. -/
lemma eq_of_accepts {settings' : Settings} (h : request.Accepts settings)
    (h' : request.Accepts settings') : settings = settings' := by
  have hsettings := settingsOf_of_accepts h
  rw [settingsOf_of_accepts h'] at hsettings
  cases hsettings
  rfl

lemma settingsOf_of_refuses (h : request.Refuses refusal) :
    settingsOf request = .ok (.error refusal) := by
  cases h with
  | limits h texts limits_eq =>
    rw [settingsOf, if_pos (typed_iff.mpr h)]
    simp only [texts.1, texts.2, limits_eq]
  | settings h settings_eq =>
    rw [settingsOf_of_handsOn h, settings_eq]
    rfl

lemma settingsOf_of_unwritable (h : request.Unwritable) :
    settingsOf request = .error .unwritable := by
  obtain ⟨htyped, hnone⟩ := h
  rw [settingsOf, if_pos (typed_iff.mpr htyped)]
  simp only
  split
  · rename_i low high hlow hhigh
    exact absurd ⟨hlow, hhigh⟩ (hnone low high)
  · rfl

/-- The settings of a request are not refused, or they are, or they cannot be looked at. -/
lemma settings_cases (request : PlotRequest) : (∃ settings, request.Accepts settings) ∨
    (∃ refusal, request.Refuses refusal) ∨ request.Unwritable := by
  have hfields : ∀ low high, request.HandsOn low high →
      (∃ settings, request.Accepts settings) ∨ ∃ refusal, request.Refuses refusal := by
    intro low high hlimits
    cases hsettings : Settings.ofFields request.function low high request.samples with
    | ok settings => exact .inl ⟨settings, low, high, hlimits, hsettings⟩
    | error e => exact .inr ⟨.settings e, .settings hlimits hsettings⟩
  rw [← or_assoc]
  by_cases htyped : request.Typed
  · by_cases htexts : ∃ low high, request.LimitTexts low high
    · obtain ⟨low, high, htexts⟩ := htexts
      cases hlimits : Limits.ofTexts low high with
      | ok limits => exact .inl (hfields _ _ (.typed htyped htexts hlimits))
      | error e => exact .inl (.inr ⟨.limits e, .limits htyped htexts hlimits⟩)
    · exact .inr ⟨htyped, fun low high h => htexts ⟨low, high, h⟩⟩
  · exact .inl (hfields _ _ (.given htyped))

/-! ### The variable -/

lemma variableOf_of_samples (h : request.Samples sampled) : variableOf request = .ok sampled := by
  rw [variableOf]
  cases h with
  | given h => rw [if_neg h]
  | first h first_eq name_ne =>
    rw [if_pos h, first_eq]
    simp only
    rw [if_neg (by simpa using name_ne)]

/-- A request samples one variable only. -/
lemma eq_of_samples {sampled' : Input} (h : request.Samples sampled)
    (h' : request.Samples sampled') : sampled = sampled' := by
  have hsampled := variableOf_of_samples h
  rw [variableOf_of_samples h'] at hsampled
  cases hsampled
  rfl

/-- A request samples some variable, or there is none. -/
lemma exists_samples (expression : Expression) :
    (∃ sampled, request.Samples sampled) ∨ request.Throws expression .noVariable := by
  by_cases hblank : request.sampled.isBlank
  · by_cases hname : ∀ name rest, request.table.independentVariables = name :: rest → name = []
    · exact .inr (.noVariable hblank hname)
    · push Not at hname
      obtain ⟨name, rest, hfirst, hne⟩ := hname
      exact .inl ⟨.text name, .first hblank hfirst hne⟩
  · exact .inl ⟨_, .given hblank⟩

/-! ### The points -/

lemma isText_iff : sampled.isText ↔ ∃ t, sampled = .text t := by
  cases sampled <;> simp [Input.isText]

lemma sampleOf_eq_error (hsettings : settings.Proper) {name other : Text} {before after : List Text}
    (htext : sampled.toText? = some name)
    (hfree : expression.freeVariables = before ++ other :: after)
    (hbefore : ∀ name ∈ before, sampled = .text name) (hother : sampled ≠ .text other) :
    sampleOf settings expression sampled = .error (.sampling (.otherVariable other name)) := by
  rw [sampleOf, htext]
  simp only
  by_cases hkind : sampled.isText
  · obtain ⟨t, rfl⟩ := isText_iff.mp hkind
    cases htext
    have hbefore' : ∀ first ∈ before, first = name := fun first hfirst => by
      cases hbefore first hfirst
      rfl
    have hother' : other ≠ name := fun h => hother (by rw [h])
    rw [if_pos hkind]
    simp only
    rw [Expression.sample_eq_otherVariable (Expression.isRange_of_proper hsettings)
      (Expression.isCount_of_proper hsettings) hfree hbefore' hother']
    rfl
  -- what is no text is no name, so already the first free variable is another one
  · obtain rfl : before = [] := List.eq_nil_iff_forall_not_mem.mpr fun first hfirst =>
      hkind (isText_iff.mpr ⟨first, hbefore first hfirst⟩)
    rw [if_neg hkind, hfree]
    rfl

lemma sampleOf_eq_ok (hsettings : settings.Proper)
    (hcompile : Expression.compile settings.function request.table = .ok expression)
    (hconstants : request.table.FiniteConstants) (hrules : request.table.Unbroken) {name : Text}
    (htext : sampled.toText? = some name)
    (hfree : ∀ other ∈ expression.freeVariables, sampled = .text other) :
    ∃ points, sampleOf settings expression sampled = .ok points ∧
      points.length = settings.samples ∧ ∀ p ∈ points, p.Bounded := by
  have hfree' : ∀ other ∈ expression.freeVariables, other = name := fun other hother => by
    have hsampled := hfree other hother
    subst hsampled
    cases htext
    rfl
  have hnone : (if sampled.isText then none else expression.freeVariables.head?) = none := by
    by_cases hkind : sampled.isText
    · rw [if_pos hkind]
    · rw [if_neg hkind, List.head?_eq_none_iff, List.eq_nil_iff_forall_not_mem]
      exact fun other hother => hkind (isText_iff.mpr ⟨other, hfree other hother⟩)
  obtain ⟨points, hpoints, hlength, hbounded⟩ :=
    Expression.sample_eq_ok hcompile hconstants hrules hsettings hfree'
  refine ⟨points, ?_, hlength, hbounded⟩
  rw [sampleOf, htext]
  simp only [hnone, hpoints]
  rfl

/-! ### The plot -/

/-- A plot shows what a request asks for. -/
structure Shows (request : PlotRequest) (plot : Plot) : Prop where
  accepts : request.Accepts plot.settings
  compile_eq : Expression.compile plot.settings.function request.table = .ok plot.expression
  sampleOf_eq : ∃ sampled, request.Samples sampled ∧
    sampleOf plot.settings plot.expression sampled = .ok plot.points
  length_points : plot.points.length = plot.settings.samples
  segments_eq : plot.segments = Curve.segments plot.points
  bounds_eq : Curve.bounds plot.points = .ok plot.bounds
  axis_eq_none_iff : plot.axis = none ↔ plot.bounds = none

lemma space_pos : space.isFinite ∧ 0 < space := by
  constructor <;> decide +kernel

lemma ofExpression_of_throws (hsettings : settings.Proper) (h : request.Throws expression e) :
    ofExpression request settings expression = .error e := by
  rw [ofExpression]
  cases h with
  | noVariable h nameless =>
    have herror : variableOf request = .error .noVariable := by
      rw [variableOf, if_pos h]
      split
      · rfl
      · rename_i name rest hfirst
        obtain rfl := nameless name rest hfirst
        rfl
    rw [herror]
    rfl
  | @unwritable sampled h text_eq =>
    have herror : sampleOf settings expression sampled = .error .unwritable := by
      rw [sampleOf, text_eq]
    rw [variableOf_of_samples h]
    simp only [bind, Except.bind, herror]
  | otherVariable h text_eq freeVariables_eq before_eq other_ne =>
    rw [variableOf_of_samples h]
    simp only [bind, Except.bind,
      sampleOf_eq_error hsettings text_eq freeVariables_eq before_eq other_ne]

/-- If nothing stands against it, there is a plot. -/
lemma exists_ofExpression (haccepts : request.Accepts settings)
    (hcompile : Expression.compile settings.function request.table = .ok expression)
    (hconstants : request.table.FiniteConstants) (hrules : request.table.Unbroken)
    (hthrows : ∀ e, ¬ request.Throws expression e) :
    ∃ plot, ofExpression request settings expression = .ok plot ∧ Shows request plot := by
  have hsettings := haccepts.proper
  obtain ⟨sampled, hsampled⟩ := (exists_samples expression).resolve_right (hthrows _)
  obtain ⟨name, hname⟩ := Option.ne_none_iff_exists'.mp fun h => hthrows _ (.unwritable hsampled h)
  have hfree : ∀ other ∈ expression.freeVariables, sampled = .text other := by
    by_contra hother
    simp only [not_forall] at hother
    obtain ⟨other, hmem, hne⟩ := hother
    obtain ⟨before, first, after, hsplit, hbefore, hfirst⟩ :=
      exists_first (fun name => sampled = .text name) ⟨other, hmem, hne⟩
    exact hthrows _ (.otherVariable hsampled hname hsplit hbefore hfirst)
  obtain ⟨points, hpoints, hlength, hbounded⟩ :=
    sampleOf_eq_ok hsettings hcompile hconstants hrules hname hfree
  rw [ofExpression, variableOf_of_samples hsampled]
  simp only [bind, Except.bind, hpoints]
  rcases Curve.bounds_eq_ok hbounded with hbounds | ⟨i, hbounds, hlow, hhigh⟩
  -- a curve of holes has no bounds and no axis
  · refine ⟨⟨settings, expression, points, Curve.segments points, none, none⟩, ?_, haccepts,
      hcompile, ⟨sampled, hsampled, hpoints⟩, hlength, rfl, hbounds, Iff.rfl⟩
    rw [hbounds]
    rfl
  · obtain ⟨j, hpad, -⟩ := Interval.pad_eq_ok hlow hhigh space_pos.1 space_pos.2
    refine ⟨⟨settings, expression, points, Curve.segments points, some i, some j⟩, ?_, haccepts,
      hcompile, ⟨sampled, hsampled, hpoints⟩, hlength, rfl, hbounds, by simp⟩
    simp only [hbounds, hpad, Except.mapError, Except.map]
    rfl

/-! ### The outcome -/

lemma ofRequest_of_refuses (h : request.Refuses refusal) :
    ofRequest request = .ok (.error refusal) := by
  rw [ofRequest, settingsOf_of_refuses h]

lemma ofRequest_of_formulaError (h : request.Accepts settings) {e : FormulaError}
    (hcompile : Expression.compile settings.function request.table = .error e) :
    ofRequest request = .ok (.error (.formula e)) := by
  rw [ofRequest, settingsOf_of_accepts h]
  simp only [hcompile]

lemma ofRequest_of_expression (h : request.Accepts settings)
    (hcompile : Expression.compile settings.function request.table = .ok expression) :
    ofRequest request = (ofExpression request settings expression).map .ok := by
  rw [ofRequest, settingsOf_of_accepts h]
  simp only [hcompile]

lemma ofRequest_of_throws (h : request.Accepts settings)
    (hcompile : Expression.compile settings.function request.table = .ok expression)
    (hthrows : request.Throws expression e) : ofRequest request = .error e := by
  rw [ofRequest_of_expression h hcompile, ofExpression_of_throws h.proper hthrows]
  rfl

/-- If nothing stands against it, the plot is the answer. -/
lemma exists_ofRequest (h : request.Accepts settings)
    (hcompile : Expression.compile settings.function request.table = .ok expression)
    (hconstants : request.table.FiniteConstants) (hrules : request.table.Unbroken)
    (hthrows : ∀ e, ¬ request.Throws expression e) :
    ∃ plot, ofRequest request = .ok (.ok plot) ∧ Shows request plot := by
  obtain ⟨plot, hplot, hshows⟩ := exists_ofExpression h hcompile hconstants hrules hthrows
  refine ⟨plot, ?_, hshows⟩
  rw [ofRequest_of_expression h hcompile, hplot]
  rfl

/-- What a request comes to. -/
def Outcome (request : PlotRequest) : Except PlotError (Except Refusal Plot) → Prop
  | .ok (.ok plot) => Shows request plot
  | .ok (.error refusal) => request.Refuses refusal ∨ ∃ settings e, request.Accepts settings ∧
    Expression.compile settings.function request.table = .error e ∧ refusal = .formula e
  | .error e => e = .unwritable ∧ request.Unwritable ∨
    ∃ settings expression, request.Accepts settings ∧
      Expression.compile settings.function request.table = .ok expression ∧
      request.Throws expression e

lemma outcome_ofRequest (hconstants : request.table.FiniteConstants)
    (hrules : request.table.Unbroken) : Outcome request (ofRequest request) := by
  rcases settings_cases request with ⟨settings, h⟩ | ⟨refusal, h⟩ | h
  · cases hcompile : Expression.compile settings.function request.table with
    | error e =>
      rw [ofRequest_of_formulaError h hcompile]
      exact .inr ⟨settings, e, h, hcompile, rfl⟩
    | ok expression =>
      by_cases hthrows : ∃ e, request.Throws expression e
      · obtain ⟨e, he⟩ := hthrows
        rw [ofRequest_of_throws h hcompile he]
        exact .inr ⟨settings, expression, h, hcompile, he⟩
      · rw [not_exists] at hthrows
        obtain ⟨plot, hplot, hshows⟩ := exists_ofRequest h hcompile hconstants hrules hthrows
        rw [hplot]
        exact hshows
  · rw [ofRequest_of_refuses h]
    exact .inl h
  · rw [ofRequest, settingsOf_of_unwritable h]
    exact .inl ⟨rfl, h⟩

/-- If the table has a single independent variable, with a name, nothing stands against sampling
it. -/
lemma not_throws_of_single {name : Text} (hblank : request.sampled.isBlank)
    (hsingle : request.table.independentVariables = [name]) (hname : name ≠ [])
    (hfree : expression.freeVariables ⊆ request.table.independentVariables) :
    ¬ request.Throws expression e := by
  have hsamples : ∀ sampled, request.Samples sampled → sampled = .text name := by
    intro sampled h
    cases h with
    | given h => exact absurd hblank h
    | first h first_eq name_ne =>
      rw [hsingle] at first_eq
      cases first_eq
      rfl
  intro h
  cases h with
  | noVariable h nameless => exact hname (nameless name [] hsingle)
  | unwritable h text_eq =>
    rw [hsamples _ h] at text_eq
    cases text_eq
  | @otherVariable sampled _ other before after h text_eq freeVariables_eq before_eq other_ne =>
    have hmem : other ∈ expression.freeVariables := by simp [freeVariables_eq]
    have hother := hfree hmem
    rw [hsingle, List.mem_singleton] at hother
    exact other_ne (hother ▸ hsamples sampled h)

/-- What a request comes to, over a table whose constants are finite and whose rules are not broken.
The settings are refused exactly if the limits cannot be read or the fields are wrong; otherwise the
function is refused exactly if it does not compile; otherwise there is an error exactly if there is
no variable or another one, or something that must be written cannot be; and otherwise there is a
plot with as many points as were asked for, their segments and bounds, and an axis if there are
bounds.  If the table has a single independent variable and no other one is asked for, there is no
error at all. -/
theorem ofRequest_outcome (hconstants : request.table.FiniteConstants)
    (hrules : request.table.Unbroken) :
    (∀ refusal, ofRequest request = .ok (.error refusal) ∧ refusal.stage = "settings" ↔
      request.Refuses refusal) ∧
    (∀ refusal, ofRequest request = .ok (.error refusal) ∧ refusal.stage = "compile" ↔
      ∃ settings e, request.Accepts settings ∧
        Expression.compile settings.function request.table = .error e ∧ refusal = .formula e) ∧
    (∀ e, ofRequest request = .error e ↔ e = .unwritable ∧ request.Unwritable ∨
      ∃ settings expression, request.Accepts settings ∧
        Expression.compile settings.function request.table = .ok expression ∧
        request.Throws expression e) ∧
    ((∃ plot, ofRequest request = .ok (.ok plot)) ↔
      ∃ settings expression, request.Accepts settings ∧
        Expression.compile settings.function request.table = .ok expression ∧
        ∀ e, ¬ request.Throws expression e) ∧
    (∀ plot, ofRequest request = .ok (.ok plot) → Shows request plot) ∧
    (∀ name, request.table.independentVariables = [name] → name ≠ [] → request.sampled.isBlank →
      ¬ request.Unwritable → ∀ e, ofRequest request ≠ .error e) := by
  have houtcome := outcome_ofRequest hconstants hrules
  have hstages : Text.ofString "settings" ≠ "compile" := by decide
  refine ⟨fun refusal => ⟨?_, ?_⟩, fun refusal => ⟨?_, ?_⟩, fun e => ⟨?_, ?_⟩, ⟨?_, ?_⟩, ?_, ?_⟩
  · rintro ⟨heq, hstage⟩
    rw [heq] at houtcome
    refine houtcome.resolve_right ?_
    rintro ⟨settings, e, -, -, rfl⟩
    exact hstages hstage.symm
  · intro h
    refine ⟨by rw [ofRequest, settingsOf_of_refuses h], ?_⟩
    cases h <;> rfl
  · rintro ⟨heq, hstage⟩
    rw [heq] at houtcome
    refine houtcome.resolve_left fun h => ?_
    cases h <;> exact hstages hstage
  · rintro ⟨settings, e, h, hcompile, rfl⟩
    exact ⟨ofRequest_of_formulaError h hcompile, rfl⟩
  · intro heq
    rw [heq] at houtcome
    exact houtcome
  · rintro (⟨rfl, h⟩ | ⟨settings, expression, h, hcompile, hthrows⟩)
    · rw [ofRequest, settingsOf_of_unwritable h]
    · exact ofRequest_of_throws h hcompile hthrows
  · rintro ⟨plot, heq⟩
    rw [heq] at houtcome
    refine ⟨_, _, houtcome.accepts, houtcome.compile_eq, fun e hthrows => ?_⟩
    rw [ofRequest_of_throws houtcome.accepts houtcome.compile_eq hthrows] at heq
    cases heq
  · rintro ⟨settings, expression, h, hcompile, hthrows⟩
    obtain ⟨plot, hplot, -⟩ := exists_ofRequest h hcompile hconstants hrules hthrows
    exact ⟨plot, hplot⟩
  · intro plot heq
    rw [heq] at houtcome
    exact houtcome
  · intro name hsingle hname hblank hwritable e heq
    rw [heq] at houtcome
    rcases houtcome with ⟨-, h⟩ | ⟨settings, expression, h, hcompile, hthrows⟩
    · exact hwritable h
    · exact not_throws_of_single hblank hsingle hname
        (Expression.freeVariables_subset hcompile) hthrows

/-- The request that leaves everything out. -/
def everythingLeftOut : PlotRequest := ⟨.absent, .absent, .absent, .absent, .absent, .standard⟩

lemma accepts_everythingLeftOut : everythingLeftOut.Accepts Settings.default := by
  refine ⟨.absent, .absent, .given ?_, ?_⟩
  · simp [PlotRequest.Typed, everythingLeftOut, Input.isText]
  · decide +kernel

theorem ofRequest_everythingLeftOut : ∃ plot, ofRequest everythingLeftOut = .ok (.ok plot) ∧
    plot.points.length = 501 ∧ (plot.axis = none ↔ plot.bounds = none) := by
  obtain ⟨-, -, -, hplot, hshows, -⟩ := @ofRequest_outcome everythingLeftOut
    SymbolTable.finiteConstants_standard SymbolTable.unbroken_standard
  have hparse : Formula.ofText "x" = .ok (.symbol "x" 0) := by cbv
  have hcheck : Formula.checkFrom .standard "x" (.symbol "x" 0) [] = .ok ["x"] := rfl
  have hcompile := Expression.compile_eq_ok_iff.mpr ⟨_, _, hparse, hcheck, rfl⟩
  obtain ⟨plot, heq⟩ := hplot.mpr ⟨_, _, accepts_everythingLeftOut, hcompile, fun e =>
    not_throws_of_single rfl rfl (by decide) (Expression.freeVariables_subset hcompile)⟩
  have h := hshows plot heq
  have hsettings := settingsOf_of_accepts h.accepts
  rw [settingsOf_of_accepts accepts_everythingLeftOut] at hsettings
  have hdefault : Settings.default = plot.settings := by simpa using hsettings
  exact ⟨plot, heq, by rw [h.length_points, ← hdefault]; rfl, h.axis_eq_none_iff⟩

/-! ### Requests without a variable -/

/-- A request for two points of a constant function over a table with some more variables. -/
def ofConstant (quantities : List (Text × VariableSymbol)) (sampled : Input) : PlotRequest :=
  ⟨.text "c", .absent, .absent, .number 2, sampled,
    .ofLists [] (("c", .constant 1 "One") :: quantities)⟩

/-- All is well with a request, and its function does not depend on anything. -/
def IsConstant (request : PlotRequest) : Prop :=
  request.table.FiniteConstants ∧ request.table.Unbroken ∧
    ∃ settings expression, request.Accepts settings ∧
      Expression.compile settings.function request.table = .ok expression ∧
      expression.freeVariables = []

lemma isConstant_ofConstant {quantities : List (Text × VariableSymbol)} {sampled : Input}
    (hconstants : (ofConstant quantities sampled).table.FiniteConstants)
    (hcheck : Formula.checkFrom (ofConstant quantities sampled).table "c" (.symbol "c" 0) []
      = .ok []) : IsConstant (ofConstant quantities sampled) := by
  have hparse : Formula.ofText "c" = .ok (.symbol "c" 0) := by cbv
  have hcompile := Expression.compile_eq_ok_iff.mpr ⟨_, _, hparse, hcheck, rfl⟩
  have hrules : (ofConstant quantities sampled).table.Unbroken := fun name function h => by cases h
  refine ⟨hconstants, hrules, ⟨"c", 0, 10, 2⟩, _, ⟨.absent, .absent, .given ?_, ?_⟩, hcompile, rfl⟩
  · simp [PlotRequest.Typed, ofConstant, Input.isText]
  · change Settings.ofFields (.text "c") .absent .absent (.number 2) = _
    decide +kernel

lemma finiteConstants_ofConstant {quantities : List (Text × VariableSymbol)} {sampled : Input}
    (h : (ofConstant quantities sampled).table.variableEntries
      = (Text.ofString "c", .constant 1 "One") :: quantities)
    (hindependent : ∀ q ∈ quantities, q.2.isIndependent) :
    (ofConstant quantities sampled).table.FiniteConstants := by
  intro name value description hmeaning
  have hmem := Entries.mem_of_get?_eq_some hmeaning
  rw [h] at hmem
  rcases List.mem_cons.mp hmem with heq | hmem
  · cases heq
    decide +kernel
  · cases hindependent _ hmem

lemma ofRequest_of_isConstant (h : IsConstant request) (hblank : request.sampled.isBlank)
    (hnameless : ∀ name rest, request.table.independentVariables = name :: rest → name = []) :
    ofRequest request = .error .noVariable := by
  obtain ⟨-, -, settings, expression, haccepts, hcompile, -⟩ := h
  exact ofRequest_of_throws haccepts hcompile (.noVariable hblank hnameless)

/-- There may be no variable although the table has an independent one, which has no name, and
although one is given, the number zero.  Limits that cannot be written are an error, too. -/
theorem ofRequest_blank :
    IsConstant (ofConstant [("", .independent "Nameless")] .absent) ∧
    (ofConstant [("", .independent "Nameless")] .absent).table.independentVariables = [""] ∧
    ofRequest (ofConstant [("", .independent "Nameless")] .absent) = .error .noVariable ∧
    IsConstant (ofConstant [] (.number 0)) ∧
    ofRequest (ofConstant [] (.number 0)) = .error .noVariable ∧
    ofRequest ⟨.text "x", .text "0", .record [("toString", .null)], .absent, .absent, .standard⟩
      = .error .unwritable := by
  have hnameless : IsConstant (ofConstant [("", .independent "Nameless")] .absent) :=
    isConstant_ofConstant (finiteConstants_ofConstant rfl (by simp [VariableSymbol.isIndependent]))
      rfl
  have hzero : IsConstant (ofConstant [] (.number 0)) :=
    isConstant_ofConstant (finiteConstants_ofConstant rfl (by simp)) rfl
  refine ⟨hnameless, rfl, ofRequest_of_isConstant hnameless rfl ?_, hzero,
    ofRequest_of_isConstant hzero (by decide +kernel) ?_, ?_⟩
  · intro name rest h
    cases h
    rfl
  · intro name rest h
    cases h
  · rw [ofRequest, settingsOf_of_unwritable ⟨.inl rfl, ?_⟩]
    intro low high h
    cases h.2

end Plot

end FunctionPlot
