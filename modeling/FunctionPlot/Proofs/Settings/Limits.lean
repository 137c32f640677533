/-
# Limits as numbers of formulas

A limit that a user types is read by a rule of its own, and a number in the text of a function is a
token.  The two agree (`Limits.read_eq_ok_iff`): a limit is a text that is read as a single number
token, behind at most one sign and with blanks around it.  So a limit without a plus sign can be
typed as a function, too, and then it is a constant one with the same value.

Both readings know the numerals of the lexicon.  A text that is read as a decimal is one of them
(`Lexicon.isSome_ofText?_iff`), and a numeral with only blanks behind it is read as one token
(`TokenStream.ofRest_token`).
-/
import FunctionPlot.Proofs.Expression.Recompile
import FunctionPlot.Proofs.Formula.Spacing
import FunctionPlot.Settings.Limits

namespace FunctionPlot

/-! ### Blanks around a text -/

/-- A text is the trimmed text with blanks around it. -/
lemma Text.exists_trim (s : Text) : ∃ before after, s = before ++ (s.trim ++ after) ∧
    (∀ u ∈ before, isBlank u) ∧ ∀ u ∈ after, isBlank u := by
  have htake (t : Text) : ∀ u ∈ t.takeWhile isBlank, isBlank u :=
    fun u hu => List.all_eq_true.mp List.all_takeWhile u hu
  refine ⟨s.takeWhile isBlank, ((s.dropWhile isBlank).reverse.takeWhile isBlank).reverse, ?_,
    htake s, ?_⟩
  · rw [trim, ← List.reverse_append, List.takeWhile_append_dropWhile, List.reverse_reverse,
      List.takeWhile_append_dropWhile]
  · intro u hu
    exact htake _ u (List.mem_reverse.mp hu)

namespace Lexicon

variable {t rest : Text}

/-- The numerals are the texts with a number. -/
lemma map_nearest_eq_some_iff {w : Float} :
    (Decimal.ofText? t).map Decimal.nearest = some w ↔ t ∈ numeral ∧ Number.ofNumeral t = w := by
  rw [← isSome_ofText?_iff, Number.ofNumeral]
  cases Decimal.ofText? t <;> simp

end Lexicon

namespace TokenStream

variable {source before after rest t : Text} {position : Nat}

/-- With blanks behind it a numeral is a single token. -/
lemma ofRest_numeral_blanks (ht : t ∈ Lexicon.numeral) (hafter : ∀ u ∈ after, isBlank u) :
    ofRest source position (t ++ after)
      = .ofList [⟨.number (Number.ofNumeral t), t, position⟩] := by
  have hvalue : ∀ value, TokenKind.number (Number.ofNumeral t) = .number value →
      value = Number.ofNumeral t := fun value h => (TokenKind.number.inj h).symm
  rw [ofRest_token ht hvalue (.of_blanks hafter), ofRest_of_blanks hafter]
  rfl

/-- The texts that are read as a single number token are the numerals. -/
theorem ofText_eq_number_iff (t : Text) (w : Float) : ofText t = .ofList [⟨.number w, t, 0⟩] ↔
    t ∈ Lexicon.numeral ∧ Number.ofNumeral t = w := by
  constructor
  · intro h
    have hmem : ⟨.number w, t, 0⟩ ∈ (ofText t).tokens := by
      rw [h]
      exact List.mem_cons_self
    have hstands := (scanned_ofText t).stands _ hmem
    exact ⟨hstands.longest.mem, (hstands.value_eq w rfl).symm⟩
  · rintro ⟨ht, rfl⟩
    have hread : ofRest t 0 (t ++ []) = _ := ofRest_numeral_blanks ht (by simp)
    rw [List.append_nil] at hread
    exact hread

end TokenStream

namespace Limits

/-- A text stands for a number: it is read as a single number token that takes all of it, or it is
a sign with such a text behind it, and the number is finite. -/
inductive Stands : Text → Float → Prop
  /-- There is no sign. -/
  | bare {t : Text} {w : Float} (h : TokenStream.ofText t = .ofList [⟨.number w, t, 0⟩])
      (finite : w.isFinite) : Stands t w
  /-- A plus sign changes nothing. -/
  | plus {t : Text} {w : Float} (h : TokenStream.ofText t = .ofList [⟨.number w, t, 0⟩])
      (finite : w.isFinite) : Stands (unit '+' :: t) w
  /-- A minus sign changes the sign of the number. -/
  | minus {t : Text} {w : Float} (h : TokenStream.ofText t = .ofList [⟨.number w, t, 0⟩])
      (finite : w.isFinite) : Stands (unit '-' :: t) (-w)

variable {v : Float}

/-- The number of a limit is the one that the trimmed text stands for. -/
lemma number?_eq_some_iff (s : Text) (v : Float) : number? s = some v ↔ Stands s.trim v := by
  rw [number?, Option.filter_eq_some_iff]
  generalize s.trim = t
  constructor
  · rintro ⟨hsigned, hfinite⟩
    cases t with
    | nil => cases hsigned
    | cons u rest =>
      rw [Number.ofSigned?] at hsigned
      split at hsigned
      · rename_i hu
        subst hu
        obtain ⟨d, hd, rfl⟩ := Option.map_eq_some_iff.mp hsigned
        have hrest := Lexicon.map_nearest_eq_some_iff.mp (congrArg (Option.map Decimal.nearest) hd)
        exact .minus ((TokenStream.ofText_eq_number_iff ..).mpr hrest)
          (Number.isFinite_neg_iff.mp hfinite)
      split at hsigned
      · rename_i hu
        subst hu
        have hrest := Lexicon.map_nearest_eq_some_iff.mp hsigned
        exact .plus ((TokenStream.ofText_eq_number_iff ..).mpr hrest) hfinite
      · have ht := Lexicon.map_nearest_eq_some_iff.mp hsigned
        exact .bare ((TokenStream.ofText_eq_number_iff ..).mpr ht) hfinite
  · rintro (⟨h, hfinite⟩ | ⟨h, hfinite⟩ | ⟨h, hfinite⟩)
    · have ht := (TokenStream.ofText_eq_number_iff ..).mp h
      rw [Lexicon.ofSigned?_of_mem_numeral ht.1]
      exact ⟨Lexicon.map_nearest_eq_some_iff.mpr ht, hfinite⟩
    · have hrest := (TokenStream.ofText_eq_number_iff ..).mp h
      rw [Number.ofSigned?, if_neg (by decide), if_pos rfl]
      exact ⟨Lexicon.map_nearest_eq_some_iff.mpr hrest, hfinite⟩
    · have hrest := Lexicon.map_nearest_eq_some_iff.mpr ((TokenStream.ofText_eq_number_iff ..).mp h)
      obtain ⟨d, hd, rfl⟩ := Option.map_eq_some_iff.mp hrest
      rw [Number.ofSigned?, if_pos rfl, hd]
      exact ⟨rfl, Number.isFinite_neg_iff.mpr hfinite⟩

/-- A finite number other than negative zero can be typed as it is written. -/
theorem number?_written (hfinite : v.isFinite) (hzero : v ≠ Number.negativeZero) :
    number? (Number.written v) = some v := by
  rw [number?, Lexicon.trim_eq_self (Lexicon.isBlank_eq_false_of_mem_written v),
    Lexicon.ofSigned?_written hfinite hzero, Option.filter_some, if_pos hfinite]

end Limits

/-! ### Numbers as formulas -/

namespace Formula

variable {s t : Text} {w : Float} {position position' : Nat}

/-- A text with the tokens of a derivation within the limits is the formula of the derivation. -/
lemma ofText_of_derivation {d : Derivation .expression}
    (hread : TokenStream.ofText s = .ofList d.tokens) (hfinite : FiniteNumbers d.tokens)
    (hnesting : d.nesting ≤ maxDepth) (hheight : d.meaning.height ≤ maxDepth) :
    ofText s = .ok d.meaning := by
  have htokens : ofText s = ofTokens d.tokens s := by rw [ofText, hread, ofTokens]
  rw [htokens]
  rcases ofTokens_tokens d hfinite s with ⟨-, -, hok⟩ | ⟨hlimit, -⟩
  · exact hok
  · omega

/-- A single number is a formula. -/
lemma ofText_number (hread : TokenStream.ofText s = .ofList [⟨.number w, t, position⟩])
    (hfinite : w.isFinite) : ofText s = .ok (.constant w position) := by
  let number : Derivation (.phrase .unary) :=
    .positive (.bare (.number w ⟨⟨.number w, t, position⟩, rfl⟩))
  refine ofText_of_derivation (d := .chain (.chain number .done) .done) hread ?_ ?_ ?_
  · simpa [FiniteNumbers, Derivation.tokens, number] using hfinite
  · show max (max (1 + 0) 0) 0 ≤ maxDepth
    decide
  · show 1 ≤ maxDepth
    decide

/-- A number behind a minus sign is a formula, a change of the sign. -/
lemma ofText_negative (hread : TokenStream.ofText s
      = .ofList [⟨.operator .sub, [unit '-'], position⟩, ⟨.number w, t, position'⟩])
    (hfinite : w.isFinite) : ofText s = .ok (.negation (.constant w position') position) := by
  let number : Derivation (.phrase .unary) :=
    .positive (.bare (.number w ⟨⟨.number w, t, position'⟩, rfl⟩))
  let opposite : Derivation (.phrase .unary) :=
    .negation ⟨⟨.operator .sub, [unit '-'], position⟩, rfl⟩ number
  refine ofText_of_derivation (d := .chain (.chain opposite .done) .done) hread ?_ ?_ ?_
  · simpa [FiniteNumbers, Derivation.tokens, number, opposite] using hfinite
  · show max (max (1 + (1 + 0)) 0) 0 ≤ maxDepth
    decide
  · show 1 + 1 ≤ maxDepth
    decide

end Formula

namespace Limits

variable {s : Text} {v : Float}

/-- A text that stands for a number, without a plus sign, is a formula of that value. -/
lemma Stands.exists_formula (h : Stands s.trim v) (hplus : s.trim.head? ≠ some (unit '+')) :
    ∃ f, Formula.ofText s = .ok f ∧ ∀ table, Formula.checkFrom table s f [] = .ok [] ∧
      ∀ bindings, f.value table bindings = .ok v := by
  obtain ⟨before, after, hs, hbefore, hafter⟩ := s.exists_trim
  generalize s.trim = t at h hplus hs
  have hscan : TokenStream.ofText s = TokenStream.ofRest s (0 + before.length) (t ++ after) := by
    rw [← TokenStream.ofRest_blanks hbefore, ← hs, TokenStream.ofText]
  cases h with
  | bare h hfinite =>
    obtain ⟨ht, rfl⟩ := (TokenStream.ofText_eq_number_iff ..).mp h
    rw [TokenStream.ofRest_numeral_blanks ht hafter] at hscan
    exact ⟨_, Formula.ofText_number hscan hfinite, fun table => ⟨rfl, fun bindings => rfl⟩⟩
  | plus h hfinite => exact absurd rfl hplus
  | @minus t w h hfinite =>
    obtain ⟨ht, rfl⟩ := (TokenStream.ofText_eq_number_iff ..).mp h
    have hsign : unit '-' = Operator.sub.sign := rfl
    rw [List.cons_append, hsign, TokenStream.ofRest_operator,
      TokenStream.ofRest_numeral_blanks ht hafter] at hscan
    exact ⟨_, Formula.ofText_negative hscan hfinite, fun table => ⟨rfl, fun bindings => rfl⟩⟩

/-- Limits and formulas have the same numbers.  A limit is read as the number that the trimmed text
stands for, and refused if there is none.  Without a plus sign, the text of a limit is also that of
a formula, which compiles over every table and always has the value of the limit. -/
theorem read_eq_ok_iff (field : LimitField) (s : Text) :
    (∀ v, read field s = .ok v ↔ Stands s.trim v) ∧
    ((∀ v, ¬ Stands s.trim v) → read field s = .error (.notANumber field)) ∧
    ∀ v, read field s = .ok v → s.trim.head? ≠ some (unit '+') →
      ∃ f, Formula.ofText s = .ok f ∧ ∀ table, ∃ e, Expression.compile s table = .ok e ∧
        e.root = f ∧ ∀ bindings, e.value bindings = .ok v := by
  have hread : ∀ v, read field s = .ok v ↔ Stands s.trim v := by
    intro v
    rw [← number?_eq_some_iff, read]
    cases number? s <;> simp
  refine ⟨hread, ?_, ?_⟩
  · intro hnone
    have hnumber : number? s = none := by
      rw [Option.eq_none_iff_forall_ne_some]
      intro v hv
      exact hnone v ((number?_eq_some_iff s v).mp hv)
    rw [read, hnumber]
  · intro v hv hplus
    obtain ⟨f, hf, hvalue⟩ := ((hread v).mp hv).exists_formula hplus
    refine ⟨f, hf, fun table => ?_⟩
    obtain ⟨hcheck, hvalue⟩ := hvalue table
    exact ⟨_, Expression.compile_eq_ok_iff.mpr ⟨f, [], hf, hcheck, rfl⟩, rfl, hvalue⟩

/-- A limit with blanks around it, a minus sign, a fraction and an exponent. -/
theorem read_eq_ok_iff_minus : read .low " -1.5e3 " = .ok (-1500) ∧
    Stands (Text.trim " -1.5e3 ") (-1500) ∧ ∃ f, Formula.ofText " -1.5e3 " = .ok f ∧
      ∃ e, Expression.compile " -1.5e3 " .standard = .ok e ∧ e.root = f ∧
        ∀ bindings, e.value bindings = .ok (-1500) := by
  have hnumber : number? " -1.5e3 " = some (-1500) := by decide +kernel
  have hread : read .low " -1.5e3 " = .ok (-1500) := by rw [read, hnumber]
  obtain ⟨hiff, -, hformula⟩ := read_eq_ok_iff .low " -1.5e3 "
  obtain ⟨f, hf, hcompile⟩ := hformula _ hread (by decide)
  exact ⟨hread, (hiff _).mp hread, f, hf, hcompile .standard⟩

end Limits

end FunctionPlot
