/-
# What a run of the program leaves behind

A run ends in one of two ways (`CommandLine.run_outcome`).  If the arguments ask for points, there
are just the lines of these points on the standard output, and nothing else is written; otherwise
there is a message on the standard error and nothing else.  There is nothing in between, since the
points are known before the first line is written.

Arguments ask for points if they have a function, limits and a number of points that can be read
(`CommandLine.Asks`).  The request that they make is then accepted, its function has no variable but
the one that is sampled, and so nothing stands against its plot.
-/
import FunctionPlot.CommandLine
import FunctionPlot.Proofs.Curve.ReadBack
import FunctionPlot.Proofs.Plot

namespace FunctionPlot

/-! ### Lines -/

namespace Text

/-- Lines with a separator between neighbours and one more at the end. -/
lemma joined_append (separator : Text) {ts : List Text} (h : ts ≠ []) :
    joined separator ts ++ separator = ts.flatMap (· ++ separator) := by
  induction ts with
  | nil => exact absurd rfl h
  | cons t ts ih =>
    cases ts with
    | nil => simp [joined]
    | cons u ts =>
      have hrest := ih (List.cons_ne_nil u ts)
      calc joined separator (t :: u :: ts) ++ separator
          = t ++ separator ++ (joined separator (u :: ts) ++ separator) := by
            simp only [joined_cons_cons, List.append_assoc]
        _ = (t :: u :: ts).flatMap (· ++ separator) := by
            rw [hrest]
            rfl

/-- Texts that end in line feeds are the lines of all of them, and nothing is behind the last. -/
lemma lines_flatMap {ts : List Text} (h : ∀ t ∈ ts, unit '\n' ∉ t) :
    lines (ts.flatMap (· ++ [unit '\n'])) = ts ++ [[]] := by
  by_cases hne : ts = []
  · subst hne
    rfl
  · rw [← joined_append _ hne, lines_append_cons, lines_joined h hne]
    rfl

end Text

/-! ### Messages -/

lemma FormulaError.message_ne_nil (e : FormulaError) : e.message ≠ [] := by
  simp [message, Place.report, Text.joined, List.intercalate_cons_cons]

lemma SettingsError.message_ne_nil (e : SettingsError) : e.message ≠ [] := by
  rw [message]
  exact List.append_ne_nil_of_left_ne_nil (by decide) _

/-! ### Limits that are accepted -/

namespace Limits

variable {low high : Text} {limits : Limits} {e : LimitsError}

lemma isFinite_of_read {field : LimitField} {t : Text} {v : Float} (h : read field t = .ok v) :
    v.isFinite := by
  rw [read] at h
  split at h
  · rename_i v hv
    cases h
    exact (Option.filter_eq_some_iff.mp hv).2
  · cases h

/-- Limits that are accepted are a range. -/
lemma isRange_of_ofTexts (h : ofTexts low high = .ok limits) :
    Expression.IsRange limits.low limits.high := by
  rw [ofTexts] at h
  obtain ⟨a, ha, h⟩ := bind_eq_ok.mp h
  obtain ⟨b, hb, h⟩ := bind_eq_ok.mp h
  split at h
  case isTrue => cases h
  rename_i hle
  cases h
  have hfinite := isFinite_of_read ha
  have hfinite' := isFinite_of_read hb
  exact ⟨hfinite, hfinite', (Number.not_le_iff_lt hfinite hfinite').mp hle⟩

/-- Limits are refused with a message. -/
lemma message_ne_nil_of_ofTexts (h : ofTexts low high = .error e) : e.message ≠ [] := by
  have hread {field : LimitField} {t : Text} {e : LimitsError} (h : read field t = .error e) :
      e.message ≠ [] := by
    rw [read] at h
    split at h
    · cases h
    · cases h
      exact List.append_ne_nil_of_right_ne_nil _ (by decide)
  rw [ofTexts] at h
  rcases bind_eq_error.mp h with hlow | ⟨a, -, h⟩
  · exact hread hlow
  rcases bind_eq_error.mp h with hhigh | ⟨b, -, h⟩
  · exact hread hhigh
  split at h
  · cases h
    decide
  · cases h

end Limits

namespace CommandLine

variable {source : Text} {rest arguments : List Text} {settings : Settings}

/-- The number of points that some arguments ask for: the fourth of them as a count, or the default
if it is left out. -/
def countOf (arguments : List Text) : Float :=
  arguments[3]?.elim (Float.ofNat Settings.default.samples) Number.ofCount

/-- Some arguments ask for points of an expression. -/
structure Asks (arguments : List Text) (expression : Expression) (limits : Limits) (n : Nat) :
    Prop where
  compile_eq : ∃ source, arguments[0]? = some source ∧ source ≠ [] ∧
    Expression.compile source .standard = .ok expression
  limits_eq : Limits.ofTexts (arguments[1]?.getD "0") (arguments[2]?.getD "10") = .ok limits
  isCount : Expression.IsCount (countOf arguments) n
  count_le : n ≤ 100000

lemma limitTexts_request (source : Text) (rest : List Text) :
    (request source rest).LimitTexts (rest[0]?.getD "0") (rest[1]?.getD "10") := by
  have hdefaults : Number.written Settings.default.low = "0" ∧
      Number.written Settings.default.high = "10" := by decide +kernel
  rw [← hdefaults.1, ← hdefaults.2]
  exact ⟨rfl, rfl⟩

lemma typed_request (source : Text) (rest : List Text) : (request source rest).Typed := .inl rfl

/-- The number of points of a request is the one that the arguments ask for. -/
lemma samples_request_iff {n : Nat} :
    (∃ v, (Settings.lookNumber Settings.samplesProblems (Float.ofNat Settings.default.samples)
      (request source rest).samples).value? = some v ∧ Number.rational? v = some (n : Rat)) ↔
    Number.rational? (countOf (source :: rest)) = some (n : Rat) := by
  rw [request, countOf, List.getElem?_cons_succ]
  cases rest[2]? with
  | none => simp [Settings.lookNumber]
  | some t =>
    simp only [Option.elim_some, Settings.lookNumber]
    split
    · -- a number that is none is no count
      rename_i hnan
      refine iff_of_false (by simp) fun hcount => ?_
      exact Number.not_isNaN_of_isFinite (Number.isFinite_iff.mpr ⟨_, hcount⟩) hnan
    · simp

/-- Arguments with a function ask for points if the request that they make is accepted and the
function compiles. -/
lemma asks_of_accepts {expression : Expression} (hsource : source ≠ [])
    (h : (request source rest).Accepts settings)
    (hcompile : Expression.compile settings.function .standard = .ok expression) :
    Asks (source :: rest) expression ⟨settings.low, settings.high⟩ settings.samples := by
  obtain ⟨low, high, hlimits, hfields⟩ := h
  obtain ⟨hproper, hfunction, hlow, hhigh, hsamples⟩ := Settings.ofFields_eq_ok_iff.mp hfields
  cases hfunction
  cases hlimits with
  | given h => exact absurd (typed_request _ rest) h
  | @typed tlow thigh limits _ texts limits_eq =>
    have htexts := limitTexts_request settings.function rest
    obtain rfl := Option.some.inj (texts.1.symm.trans htexts.1)
    obtain rfl := Option.some.inj (texts.2.symm.trans htexts.2)
    refine ⟨⟨settings.function, rfl, hsource, hcompile⟩, ?_, ?_, hproper.samples_le⟩
    · rw [Settings.eq_of_lookNumber hlow, Settings.eq_of_lookNumber hhigh]
      exact limits_eq
    · exact ⟨hproper.two_le_samples, samples_request_iff.mp hsamples⟩

/-- The request of arguments that ask for points is accepted. -/
lemma Asks.accepts {expression : Expression} {limits : Limits} {n : Nat}
    (h : Asks (source :: rest) expression limits n) :
    (request source rest).Accepts ⟨source, limits.low, limits.high, n⟩ := by
  have hrange := Limits.isRange_of_ofTexts h.limits_eq
  refine ⟨_, _, .typed (typed_request source rest) (limitTexts_request source rest) h.limits_eq,
    Settings.ofFields_eq_ok_iff.mpr ⟨?_, rfl, ?_, ?_, ?_⟩⟩
  · exact ⟨hrange.low_finite, hrange.high_finite, hrange.low_lt_high, h.isCount.two_le, h.count_le⟩
  · exact Settings.lookNumber_of_isFinite hrange.low_finite
  · exact Settings.lookNumber_of_isFinite hrange.high_finite
  · exact samples_request_iff.mpr h.isCount.rational?_eq

/-! ### The two outcomes -/

/-- A refusal of the settings of arguments has a message. -/
lemma message_ne_nil_of_refuses {refusal : Refusal} (h : (request source rest).Refuses refusal) :
    refusal.message ≠ [] := by
  cases h with
  | limits h texts limits_eq => exact Limits.message_ne_nil_of_ofTexts limits_eq
  | settings h settings_eq => exact SettingsError.message_ne_nil _

lemma run_of_refusal {refusal : Refusal} (hsource : source ≠ [])
    (h : Plot.ofRequest (request source rest) = .ok (.error refusal)) :
    run (source :: rest) = .failure refusal.message := by
  rw [run, if_neg (by simpa using hsource), h]

/-- Arguments that ask for points get them. -/
lemma run_of_asks {expression : Expression} {limits : Limits} {n : Nat}
    (h : Asks arguments expression limits n) : ∃ points,
      expression.sample "x" limits.low limits.high (Float.ofNat n) = .ok points ∧
      points.length = n ∧ run arguments = .success (Curve.toText points) := by
  obtain ⟨source, hhead, hsource, hcompile⟩ := h.compile_eq
  obtain ⟨rest, rfl⟩ : ∃ rest, arguments = source :: rest := by
    cases arguments with
    | nil => cases hhead
    | cons first rest =>
      cases hhead
      exact ⟨rest, rfl⟩
  have hsingle : (request source rest).table.independentVariables = [Text.ofString "x"] := rfl
  have hfree := Expression.freeVariables_subset hcompile
  obtain ⟨plot, hplot, hshows⟩ := Plot.exists_ofRequest h.accepts hcompile
    SymbolTable.finiteConstants_standard SymbolTable.unbroken_standard
    fun e => Plot.not_throws_of_single rfl hsingle (by decide) hfree
  obtain ⟨sampled, hsampled, hpoints⟩ := hshows.sampleOf_eq
  have hlength := hshows.length_points
  -- the plot is that of the settings and of the expression of the arguments
  have hexpression := hshows.compile_eq
  rw [← Plot.eq_of_accepts h.accepts hshows.accepts] at hexpression hpoints hlength
  obtain rfl : expression = plot.expression := Except.ok.inj (hcompile.symm.trans hexpression)
  obtain rfl : sampled = .text "x" := Plot.eq_of_samples hsampled (.first rfl hsingle (by decide))
  refine ⟨plot.points, mapError_eq_ok.mp hpoints, hlength, ?_⟩
  rw [run, if_neg (by simpa using hsource), hplot]

/-- Other arguments get a message. -/
lemma run_of_not_asks (h : ∀ expression limits n, ¬ Asks arguments expression limits n) :
    ∃ message, message ≠ [] ∧ run arguments = .failure message := by
  have husage : usage ≠ [] := by decide
  cases arguments with
  | nil => exact ⟨usage, husage, rfl⟩
  | cons source rest =>
    by_cases hsource : source = []
    · subst hsource
      exact ⟨usage, husage, rfl⟩
    rcases Plot.settings_cases (request source rest) with
      ⟨settings, haccepts⟩ | ⟨refusal, hrefuses⟩ | ⟨-, hnone⟩
    · cases hcompile : Expression.compile settings.function .standard with
      | ok expression => exact absurd (asks_of_accepts hsource haccepts hcompile) (h _ _ _)
      | error e =>
        have hrefusal := Plot.ofRequest_of_formulaError haccepts hcompile
        exact ⟨_, e.message_ne_nil, run_of_refusal hsource hrefusal⟩
    · exact ⟨_, message_ne_nil_of_refuses hrefuses,
        run_of_refusal hsource (Plot.ofRequest_of_refuses hrefuses)⟩
    · exact absurd (limitTexts_request source rest) (hnone _ _)

/-- The output of a run that succeeds. -/
lemma output_success {points : List SamplePoint} (h : points ≠ []) :
    Outcome.success (Curve.toText points)
      = ⟨0, (points.map SamplePoint.toText).flatMap (· ++ [unit '\n']), []⟩ := by
  rw [Outcome.success, Curve.toText, Text.joined_append _ (by simpa using h)]

/-- A run of the program has one of two outcomes.  If the arguments ask for points, the program
succeeds, and its output is a line for each of the points, in order, with the value of the variable,
a tabulator and the value of the function or the word for a hole; it has as many lines as were asked
for, and nothing else is written.  Otherwise the program fails with a message and writes nothing
else. -/
theorem run_outcome (arguments : List Text) :
    ((run arguments).exitCode = 0 ↔ ∃ expression limits n, Asks arguments expression limits n) ∧
    (∀ expression limits n, Asks arguments expression limits n → ∃ points,
      expression.sample "x" limits.low limits.high (Float.ofNat n) = .ok points ∧
      points.length = n ∧
      run arguments = ⟨0, points.flatMap fun p => Number.written p.x ++
        unit '\t' :: p.y?.elim "undefined" Number.written ++ [unit '\n'], []⟩ ∧
      Text.lines (run arguments).output = points.map SamplePoint.toText ++ [[]]) ∧
    ((∀ expression limits n, ¬ Asks arguments expression limits n) → ∃ message, message ≠ [] ∧
      run arguments = ⟨1, [], message ++ [unit '\n']⟩) := by
  refine ⟨⟨?_, ?_⟩, ?_, run_of_not_asks⟩
  · intro hzero
    by_contra hnone
    push Not at hnone
    obtain ⟨message, -, hrun⟩ := run_of_not_asks hnone
    rw [hrun] at hzero
    cases hzero
  · rintro ⟨expression, limits, n, h⟩
    obtain ⟨points, -, -, hrun⟩ := run_of_asks h
    rw [hrun]
    rfl
  · intro expression limits n h
    obtain ⟨points, hpoints, hlength, hrun⟩ := run_of_asks h
    have hne : points ≠ [] := by
      rintro rfl
      have htwo := h.isCount.two_le
      rw [← hlength] at htwo
      exact absurd htwo (by decide)
    rw [output_success hne] at hrun
    refine ⟨points, hpoints, hlength, ?_, ?_⟩
    · rw [hrun, List.flatMap_map]
      rfl
    · rw [hrun]
      refine Text.lines_flatMap fun t ht => ?_
      obtain ⟨p, -, rfl⟩ := List.mem_map.mp ht
      exact p.lineFeed_notMem_toText

/-- Three lines with a hole in the middle, and a message about limits in the wrong order. -/
theorem run_outcome_reciprocal :
    (∃ points : List SamplePoint, points.length = 3 ∧
      (run ["pi/x", "-1", " 1e0 ", "0x3"]).exitCode = 0 ∧
      Text.lines (run ["pi/x", "-1", " 1e0 ", "0x3"]).output
        = points.map SamplePoint.toText ++ [[]]) ∧
    ∃ message, message ≠ [] ∧ run ["pi/x", "1", "0"] = ⟨1, [], message ++ [unit '\n']⟩ := by
  have hlimits : Limits.ofTexts "-1" " 1e0 " = .ok ⟨-1, 1⟩ := by decide +kernel
  have hcount : Expression.IsCount (Number.ofCount "0x3") 3 := ⟨by decide, by decide +kernel⟩
  have hreversed : Limits.ofTexts "1" "0" = .error .reversed := by decide +kernel
  constructor
  · have hasks : Asks ["pi/x", "-1", " 1e0 ", "0x3"] _ ⟨-1, 1⟩ 3 :=
      ⟨⟨_, rfl, by decide, Expression.compile_reciprocal⟩, hlimits, hcount, by norm_num⟩
    obtain ⟨hzero, hpoints, -⟩ := run_outcome ["pi/x", "-1", " 1e0 ", "0x3"]
    obtain ⟨points, -, hlength, -, hlines⟩ := hpoints _ _ _ hasks
    exact ⟨points, hlength, hzero.mpr ⟨_, _, _, hasks⟩, hlines⟩
  · obtain ⟨-, -, hmessage⟩ := run_outcome ["pi/x", "1", "0"]
    refine hmessage fun expression limits n h => ?_
    have hok := h.limits_eq
    change Limits.ofTexts "1" "0" = .ok limits at hok
    rw [hreversed] at hok
    cases hok

end CommandLine

end FunctionPlot
