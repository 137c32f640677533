/-
# The places of errors

The error of a text that is no expression is at a place of the text that shows what the error is
about (`Expression.compile_error_placed`): a stray character, a token that stands where another one
must stand, or a name.

An error about a name comes from the check of the formula.  `Formula.Anchored` says of all the names
of a formula that they stand at their positions in their roles.  It holds of what a derivation
stands for, since behind a name that is a phrase of its own there is no opening parenthesis
(`Derivation.Ends`), and so the role of a name can be seen from the token behind it.
-/
import FunctionPlot.Expression
import FunctionPlot.Proofs.Formula.Tokenization
import FunctionPlot.Proofs.Parser.Verdict

namespace FunctionPlot

/-- A name stands among some tokens at a position, and the token behind it shows its role. -/
def IsNamed (ts : List Token) (role : Role) (name : Text) (position : Nat) : Prop :=
  ∃ before t after, ts = before ++ t :: after ∧ t.kind = .identifier ∧ t.text = name ∧
    t.position = position ∧ (role = .function ↔ ∃ u ∈ after.head?, u.kind = .leftParen)

namespace Formula

mutual

/-- All names of a formula stand where they are said to. -/
def Anchored (named : Role → Text → Nat → Prop) : Formula → Prop
  | constant _ _ => True
  | symbol name position => named .quantity name position
  | negation operand _ => operand.Anchored named
  | binary _ left right _ => left.Anchored named ∧ right.Anchored named
  | call function arguments position =>
    named .function function position ∧ AllAnchored named arguments

/-- All names of some formulas stand where they are said to. -/
def AllAnchored (named : Role → Text → Nat → Prop) : List Formula → Prop
  | [] => True
  | f :: rest => f.Anchored named ∧ AllAnchored named rest

end

variable {named : Role → Text → Nat → Prop}

lemma allAnchored_iff (formulas : List Formula) :
    AllAnchored named formulas ↔ ∀ f ∈ formulas, f.Anchored named := by
  induction formulas with
  | nil => simp [AllAnchored]
  | cons f rest ih => rw [AllAnchored, ih, List.forall_mem_cons]

end Formula

/-- The names of what derivations stand for are where they are said to be; steps add no others. -/
def Nonterminal.Anchored (named : Role → Text → Nat → Prop) : (G : Nonterminal) → G.Meaning → Prop
  | phrase _, f => Formula.Anchored named f
  | steps _, extend => ∀ left : Formula, left.Anchored named → (extend left).Anchored named
  | arguments, formulas => ∀ f ∈ formulas, Formula.Anchored named f
  | moreArguments, formulas => ∀ f ∈ formulas, Formula.Anchored named f

namespace Derivation

variable {named : Role → Text → Nat → Prop} {ts rest : List Token}

/-- Each name among some tokens is where it is said to be, in the role that the token behind it
shows. -/
def Anchors (named : Role → Text → Nat → Prop) (ts : List Token) : Prop :=
  ∀ before t after role, ts = before ++ t :: after → t.kind = .identifier →
    (role = .function ↔ ∃ u ∈ after.head?, u.kind = .leftParen) → named role t.text t.position

lemma Anchors.right (h : Anchors named (ts ++ rest)) : Anchors named rest := by
  rintro before t after role rfl
  exact h (ts ++ before) t after role (by simp)

lemma Anchors.tail {t : Token} (h : Anchors named (t :: rest)) : Anchors named rest := by
  rw [← List.singleton_append] at h
  exact h.right

lemma anchors_isNamed (ts : List Token) : Anchors (IsNamed ts) ts :=
  fun before t after _ hts hkind hrole => ⟨before, t, after, hts, hkind, rfl, rfl, hrole⟩

/-- A name with an opening parenthesis behind it is the name of a function. -/
lemma Anchors.function {t : Token.Of .identifier} {opening : Token.Of .leftParen}
    (h : Anchors named (t.val :: opening.val :: rest)) :
    named .function t.val.text t.val.position := by
  refine h [] t.val (opening.val :: rest) .function rfl t.property (iff_of_true rfl ?_)
  exact ⟨opening.val, rfl, opening.property⟩

/-- A name that is a phrase of its own is the name of a variable. -/
lemma Anchors.quantity {t : Token.Of .identifier} (hends : (name t).Ends rest)
    (h : Anchors named (t.val :: rest)) : named .quantity t.val.text t.val.position := by
  refine h [] t.val rest .quantity rfl t.property (iff_of_false (nomatch ·) ?_)
  rintro ⟨u, hu, hkind⟩
  exact hends.apart t.val rfl u hu t.property hkind

/-- The names of what a derivation stands for are those of its tokens. -/
theorem anchored_meaning {G : Nonterminal} (d : Derivation G) (hends : d.Ends rest)
    (h : Anchors named (d.tokens ++ rest)) : G.Anchored named d.meaning := by
  induction d generalizing rest with
  | chain first further ihfirst ihfurther =>
    rw [tokens, List.append_assoc] at h
    exact ihfurther hends.further h.right first.meaning (ihfirst hends.first h)
  | done => exact fun left hleft => hleft
  | step op mem sign operand further ihoperand ihfurther =>
    rw [tokens, List.cons_append, List.append_assoc] at h
    intro left hleft
    exact ihfurther hends.further_step h.tail.right _ ⟨hleft, ihoperand hends.operand h.tail⟩
  | negation sign operand ih => exact ih hends.negated h.tail
  | positive power ih => exact ih hends.power h
  | bare base ih => exact ih hends.base h
  | raised base sign exponent ihbase ihexponent =>
    rw [tokens, List.append_assoc, List.cons_append] at h
    exact ⟨ihbase (ends_caret base sign) h, ihexponent hends.exponent h.right.tail⟩
  | number value t => trivial
  | name t => exact Anchors.quantity hends h
  | emptyCall t opening closing => exact ⟨Anchors.function h, trivial⟩
  | call t opening args closing ih =>
    rw [tokens, List.cons_append, List.cons_append, List.append_assoc] at h
    refine ⟨h.function, (Formula.allAnchored_iff _).mpr ?_⟩
    exact ih (ends_arguments_closing args closing) h.tail.tail
  | group opening inner closing ih =>
    rw [tokens, List.cons_append, List.append_assoc] at h
    exact ih (ends_closing inner closing) h.tail
  | arguments first further ihfirst ihfurther =>
    rw [tokens, List.append_assoc] at h
    exact List.forall_mem_cons.mpr
      ⟨ihfirst hends.argument h, ihfurther hends.further_arguments h.right⟩
  | noMore => exact fun f hf => absurd hf List.not_mem_nil
  | more comma argument further ihargument ihfurther =>
    rw [tokens, List.cons_append, List.append_assoc] at h
    exact List.forall_mem_cons.mpr
      ⟨ihargument hends.argument_more h.tail, ihfurther hends.further_more h.tail.right⟩

end Derivation

namespace Formula

variable {named : Role → Text → Nat → Prop} {table : SymbolTable} {source : Text}
  {seen : List Text} {e : FormulaError} {f : Formula}

/-- An error is about a name, at the place of the name. -/
def Blames (named : Role → Text → Nat → Prop) (source : Text) (e : FormulaError) : Prop :=
  e.source = source ∧ ∃ role name, named role name e.position ∧
    (e.cause = .unknownName name role ∨
      role = .function ∧ ∃ expected got, e.cause = .wrongArity name expected got)

lemma blames_of_checkSymbol {name : Text} {position : Nat} (h : named .quantity name position)
    (herror : checkSymbol table source name position seen = .error e) :
    Blames named source e := by
  rw [checkSymbol] at herror
  split at herror
  · cases herror
    exact ⟨rfl, .quantity, name, h, .inl rfl⟩
  · cases herror

lemma blames_of_checkCall {name : Text} {count position : Nat} (h : named .function name position)
    (herror : checkCall table source name count position = .error e) :
    Blames named source e := by
  rw [checkCall] at herror
  split at herror
  · cases herror
    exact ⟨rfl, .function, name, h, .inl rfl⟩
  · split at herror
    · cases herror
    · cases herror
      exact ⟨rfl, .function, name, h, .inr ⟨rfl, _, _, rfl⟩⟩

lemma blames_of_checkAllFrom {formulas : List Formula}
    (h : ∀ f ∈ formulas, ∀ seen, checkFrom table source f seen = .error e → Blames named source e)
    (herror : checkAllFrom table source formulas seen = .error e) : Blames named source e := by
  induction formulas generalizing seen with
  | nil => cases herror
  | cons f rest ih =>
    obtain ⟨hf, hrest⟩ := List.forall_mem_cons.mp h
    rw [checkAllFrom] at herror
    cases hcheck : checkFrom table source f seen with
    | error e' =>
      rw [hcheck] at herror
      cases herror
      exact hf seen hcheck
    | ok seen' =>
      rw [hcheck] at herror
      exact ih hrest herror

/-- The check of a formula blames one of its names. -/
lemma blames_of_checkFrom (h : f.Anchored named)
    (herror : checkFrom table source f seen = .error e) : Blames named source e := by
  induction f generalizing seen with
  | constant value position => cases herror
  | symbol name position => exact blames_of_checkSymbol h herror
  | negation operand position ih => exact ih h herror
  | binary op left right position ihleft ihright =>
    rw [checkFrom] at herror
    cases hcheck : checkFrom table source left seen with
    | error e' =>
      rw [hcheck] at herror
      cases herror
      exact ihleft h.1 hcheck
    | ok seen' =>
      rw [hcheck] at herror
      exact ihright h.2 herror
  | call function arguments position ih =>
    rw [checkFrom] at herror
    cases hcheck : checkCall table source function arguments.length position with
    | error e' =>
      rw [hcheck] at herror
      cases herror
      exact blames_of_checkCall h.1 hcheck
    | ok =>
      rw [hcheck] at herror
      have hall := (allAnchored_iff arguments).mp h.2
      exact blames_of_checkAllFrom (fun a ha seen => ih a ha (hall a ha)) herror

/-- The names of a formula that is read from a text are those of the tokens of the text. -/
lemma anchored_of_ofText (h : ofText source = .ok f) :
    f.Anchored (IsNamed (TokenStream.ofText source).tokens) := by
  obtain ⟨d, htokens, -, rfl, -⟩ := exists_derivation h
  have hanchors : Derivation.Anchors (IsNamed (TokenStream.ofText source).tokens)
      (d.tokens ++ []) := by
    rw [List.append_nil, htokens]
    exact Derivation.anchors_isNamed _
  exact d.anchored_meaning d.ends_nil hanchors

end Formula

namespace FormulaError

/-- An error of a text stands at what it is about: at the stray character that it shows; at the
token that it has found, or at the end of the text if nothing is found; or at a name, of a function
if an opening parenthesis is behind it and of a variable if not. -/
def IsPlaced (source : Text) (e : FormulaError) : Prop :=
  match e.cause with
  | .other _ => False
  | .strayCharacter c => ∃ u, c = [u] ∧ source[e.position]? = some u
  | .mismatch _ found _ =>
    (found = "end of input" → e.position = source.length) ∧
    (found ≠ "end of input" → ∃ t ∈ (TokenStream.ofText source).tokens,
      found = "'" ++ t.text ++ "'" ∧ t.position = e.position ∧ t.text <+: source.drop e.position)
  | .unknownName name role =>
    IsNamed (TokenStream.ofText source).tokens role name e.position ∧
      name <+: source.drop e.position
  | .wrongArity name _ _ =>
    IsNamed (TokenStream.ofText source).tokens .function name e.position ∧
      name <+: source.drop e.position

end FormulaError

namespace Expression

open TokenStream

variable {source : Text} {table : SymbolTable} {e : FormulaError}

/-- A token of a text stands in the text. -/
lemma front_of_mem {t : Token} (ht : t ∈ (ofText source).tokens) :
    t.text <+: source.drop t.position ∧ t.position ≤ source.length := by
  have hscanned := scanned_ofText source
  refine ⟨(hscanned.stands t ht).longest.front, ?_⟩
  have hend := (hscanned.endPosition_le t ht).trans hscanned.stop_le
  rw [Token.endPosition] at hend
  omega

/-- A name of a text stands in the text. -/
lemma front_of_isNamed {role : Role} {name : Text} {position : Nat}
    (h : IsNamed (ofText source).tokens role name position) :
    name <+: source.drop position ∧ position ≤ source.length := by
  obtain ⟨before, t, after, htokens, -, rfl, rfl, -⟩ := h
  have ht : t ∈ (ofText source).tokens := by simp [htokens]
  exact front_of_mem ht

/-- A quoted token is not the end. -/
lemma quote_ne_end (t : Token) : ("'" : Text) ++ t.text ++ "'" ≠ "end of input" := by
  intro heq
  have hquote := congrArg List.head? heq
  change some (unit '\'') = some (unit 'e') at hquote
  exact absurd hquote (by decide)

/-- What is found in place of something else is a token in quotes, or the end of the text. -/
lemma isPlaced_mismatch {next? : Option Token} (hnext : ∀ t ∈ next?, t ∈ (ofText source).tokens)
    (expected : Text) (reason? : Option Text) :
    ((ofText source).mismatch source next? expected reason?).IsPlaced source ∧
      ((ofText source).mismatch source next? expected reason?).position ≤ source.length := by
  cases next? with
  | none =>
    have hposition :
        ((ofText source).mismatch source none expected reason?).position = source.length := by
      cases source with
      | nil =>
        rw [TokenStream.ofText, ofRest_nil]
        rfl
      | cons u source => rfl
    exact ⟨⟨fun _ => hposition, fun hne => absurd rfl hne⟩, hposition.le⟩
  | some t =>
    have ht := hnext t rfl
    obtain ⟨hfront, hle⟩ := front_of_mem ht
    exact ⟨⟨fun heq => absurd heq (quote_ne_end t), fun _ => ⟨t, ht, rfl, rfl, hfront⟩⟩, hle⟩

lemma isPlaced_of_ofText (h : Formula.ofText source = .error e) :
    e.source = source ∧ e.IsPlaced source ∧ e.position ≤ source.length := by
  have hverdict := Formula.verdict (ofText source) source
  change Verdict _ _ (Formula.ofText source) at hverdict
  rw [h] at hverdict
  cases hverdict with
  | @stopped w ts rest expected reason? tokens_eq =>
    refine ⟨rfl, isPlaced_mismatch (fun t ht => ?_) expected reason?⟩
    rw [tokens_eq]
    exact List.mem_append_right _ (List.mem_of_mem_head? ht)
  | faulty fault =>
    have hscanned := scanned_ofText source
    obtain ⟨u, hstray, hu, -⟩ := hscanned.fault e fault
    have hle := hscanned.stop_le
    rw [stop, fault, Option.elim_some] at hle
    rw [FormulaError.IsPlaced, hstray]
    exact ⟨rfl, ⟨u, rfl, hu⟩, hle⟩

lemma isPlaced_of_blames (h : Formula.Blames (IsNamed (ofText source).tokens) source e) :
    e.source = source ∧ e.IsPlaced source ∧ e.position ≤ source.length := by
  obtain ⟨hsource, role, name, hnamed, hcause⟩ := h
  obtain ⟨hfront, hle⟩ := front_of_isNamed hnamed
  refine ⟨hsource, ?_, hle⟩
  rw [FormulaError.IsPlaced]
  rcases hcause with hcause | ⟨rfl, expected, got, hcause⟩
  · rw [hcause]
    exact ⟨hnamed, hfront⟩
  · rw [hcause]
    exact ⟨hnamed, hfront⟩

/-- A text that is no expression is no formula, or a formula that fails the check. -/
lemma compile_eq_error_iff : compile source table = .error e ↔ Formula.ofText source = .error e ∨
    ∃ f, Formula.ofText source = .ok f ∧ Formula.checkFrom table source f [] = .error e := by
  rw [compile]
  cases Formula.ofText source with
  | error fault => simp [bind, Except.bind]
  | ok f =>
    cases hcheck : Formula.checkFrom table source f [] with
    | error fault => simp [bind, Except.bind, Formula.check, hcheck]
    | ok seen => simp [bind, Except.bind, Formula.check, hcheck, pure, Except.pure]

/-- The error of a text that is no expression over a table is an error of this text, at a place of
it that shows what the error is about. -/
theorem compile_error_placed (h : compile source table = .error e) :
    e.source = source ∧ e.IsPlaced source ∧ e.position ≤ source.length := by
  rcases compile_eq_error_iff.mp h with hread | ⟨f, hread, hcheck⟩
  · exact isPlaced_of_ofText hread
  · exact isPlaced_of_blames (Formula.blames_of_checkFrom (Formula.anchored_of_ofText hread) hcheck)

theorem compile_error_placed_call : ∃ e, compile "x * log(x)" .standard = .error e ∧
    e.cause = .unknownName "log" .function ∧ e.position = 4 ∧ e.source = "x * log(x)" ∧
      e.IsPlaced "x * log(x)" ∧ e.position ≤ (Text.ofString "x * log(x)").length := by
  have hparse : Formula.ofText "x * log(x)"
      = .ok (.binary .mul (.symbol "x" 0) (.call "log" [.symbol "x" 8] 4) 2) := by cbv
  have hcheck : Formula.checkFrom .standard "x * log(x)"
      (.binary .mul (.symbol "x" 0) (.call "log" [.symbol "x" 8] 4) 2) []
      = .error ⟨.unknownName "log" .function, 4, "x * log(x)"⟩ := rfl
  have herror := compile_eq_error_iff.mpr (.inr ⟨_, hparse, hcheck⟩)
  exact ⟨_, herror, rfl, rfl, compile_error_placed herror⟩

end Expression

end FunctionPlot
