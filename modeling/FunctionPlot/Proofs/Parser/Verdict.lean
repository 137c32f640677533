/-
# What becomes of a whole stream of tokens

A parser that is asked for one formula reads an expression and looks for the end of its tokens.
`Verdict` says what can come out, in terms of the tokens and the derivations of the grammar only.

The two main results follow from it.  `ofTokens_accepts_grammar` says which lists of tokens are
parsed and to what, and `ofText_error_leftmost` says where the error of a text stands that is no
formula.
-/
import FunctionPlot.Proofs.Parser.Answer
import Mathlib

namespace FunctionPlot

/-- The error that something else than the next token was expected, which stands at the end if
there is no next token. -/
def TokenStream.mismatch (s : TokenStream) (source : Text) (next? : Option Token) (expected : Text)
    (reason? : Option Text) : FormulaError where
  cause := .mismatch expected (next?.elim "end of input" fun t => "'" ++ t.text ++ "'") reason?
  position := next?.elim
    (if source.isEmpty then s.tokens.getLast?.elim 0 Token.endPosition else source.length)
    Token.position
  source := source

/-- What a parser makes of a stream of tokens when it is asked for one formula. -/
inductive Verdict (s : TokenStream) (source : Text) : Except FormulaError Formula → Prop where
  /-- The tokens are a formula within the limits. -/
  | read (d : Derivation .expression) (tokens_eq : d.tokens = s.tokens) (fault : s.fault? = none)
      (finite : FiniteNumbers d.tokens) (nesting : d.nesting ≤ maxDepth)
      (height_le : d.meaning.height ≤ maxDepth) : Verdict s source (.ok d.meaning)
  /-- The parser stops behind the tokens `ts`. -/
  | stopped (w : Failure) {ts rest : List Token} {expected : Text} {reason? : Option Text}
      (tokens_eq : s.tokens = ts ++ rest) (fault : rest = [] → s.fault? = none)
      (describes : w.Describes rest.head? expected reason?)
      (viable : Nonterminal.expression.Viable ts)
      (excludes : ∀ (d : Derivation .expression) (us : List Token), d.tokens = ts ++ us →
        us.head? = rest.head? → w.Excludes maxDepth d.tokens d.nesting d.meaning.height) :
      Verdict s source (.error (s.mismatch source rest.head? expected reason?))
  /-- The parser meets the error behind the last token. -/
  | faulty {e : FormulaError} (fault : s.fault? = some e)
      (viable : Nonterminal.expression.Viable s.tokens) : Verdict s source (.error e)

namespace Parsing

/-- A parser as it is before it takes its first token. -/
structure Fresh (p : Parser) : Prop where
  settled : p.Settled
  last_eq : p.last? = none
  depth_eq : p.depth = 0

variable {p q : Parser} {ts : List Token}

lemma Fresh.mismatch_eq (hp : Fresh p) (reads : p.Reads ts q) (expected : Text)
    (reason? : Option Text) :
    q.mismatch expected reason? = TokenStream.mismatch ⟨p.tokens, p.stream.fault?⟩ p.source
      q.tokens.head? expected reason? := by
  rw [reads.settled.head?_tokens]
  cases hcurrent : q.current? with
  | some t => simp [Parser.mismatch, TokenStream.mismatch, Parser.found, hcurrent, reads.source_eq]
  | none =>
    have htokens : p.tokens = ts := by
      rw [reads.tokens_eq, reads.settled.tokens_eq_nil.mpr hcurrent, List.append_nil]
    have hlast : q.last? = p.tokens.getLast? := by
      rw [reads.last_eq, hp.last_eq, Option.or_none, htokens]
    simp [Parser.mismatch, TokenStream.mismatch, Parser.found, hcurrent, Parser.endPosition, hlast,
      reads.source_eq]

lemma Fresh.verdict_of_stop (hp : Fresh p) (w : Failure) (reads : p.Reads ts q) {expected : Text}
    {reason? : Option Text} (describes : w.Describes q.current? expected reason?)
    (viable : Nonterminal.expression.Viable ts)
    (excludes : ∀ (d : Derivation .expression) (us : List Token), d.tokens = ts ++ us →
      us.head? = q.tokens.head? → w.Excludes maxDepth d.tokens d.nesting d.meaning.height) :
    Verdict ⟨p.tokens, p.stream.fault?⟩ p.source (.error (q.mismatch expected reason?)) := by
  rw [hp.mismatch_eq reads]
  refine .stopped w reads.tokens_eq (fun hrest => ?_) ?_ viable excludes
  · change p.stream.fault? = none
    rw [← reads.fault_eq, reads.settled (reads.settled.tokens_eq_nil.mp hrest)]
    rfl
  · rwa [reads.settled.head?_tokens]

lemma Fresh.verdict (hp : Fresh p) : Verdict ⟨p.tokens, p.stream.fault?⟩ p.source p.parse.1 := by
  have hallowance : maxDepth - p.depth = maxDepth := by rw [hp.depth_eq, Nat.sub_zero]
  have hanswers := Parser.answers_parse hp.settled
  generalize p.parse = result at hanswers ⊢
  cases hanswers with
  | @read q d reads ended depth finite nesting height_le =>
    refine .read d ?_ ?_ finite (hallowance ▸ nesting) height_le
    · rw [reads.tokens_eq, reads.settled.tokens_eq_nil.mpr ended, List.append_nil]
    · rw [← reads.fault_eq, reads.settled ended]
      rfl
  | stopped w reads hge hle describes viable excludes =>
    rw [hallowance] at excludes
    exact hp.verdict_of_stop w reads describes viable excludes
  | faulty reads hge hle current stream viable =>
    refine .faulty ?_ ?_
    · rw [← reads.fault_eq, stream]
    · rwa [reads.tokens_eq, Parser.tokens_of_current? current, stream]

end Parsing

lemma Formula.verdict (s : TokenStream) (source : Text) :
    Verdict s source (Formula.ofStream s source) := by
  obtain ⟨ts, fault?⟩ := s
  rcases ts with _ | ⟨t, ts⟩
  · cases fault? with
    | none =>
      exact Parsing.Fresh.verdict (p := ⟨none, none, .ended, 0, source⟩) ⟨fun _ => rfl, rfl, rfl⟩
    | some e => exact .faulty rfl (Parsing.viable_nil _)
  · exact Parsing.Fresh.verdict (p := ⟨some t, none, ⟨ts, fault?⟩, 0, source⟩)
      ⟨(nomatch ·), rfl, rfl⟩

namespace Formula

open Nonterminal

variable {s : TokenStream} {source : Text} {f : Formula}

/-- A formula that is parsed has a derivation within the limits. -/
lemma exists_derivation (h : ofStream s source = .ok f) : ∃ d : Derivation .expression,
    d.tokens = s.tokens ∧ s.fault? = none ∧ d.meaning = f ∧ FiniteNumbers d.tokens ∧
      d.nesting ≤ maxDepth ∧ f.height ≤ maxDepth := by
  have hverdict := verdict s source
  rw [h] at hverdict
  cases hverdict with
  | read d tokens_eq fault finite nesting height_le =>
    exact ⟨d, tokens_eq, fault, rfl, finite, nesting, height_le⟩

/-- The tokens of a derivation with finite numbers are parsed, unless a limit is exceeded. -/
lemma ofTokens_tokens (d : Derivation .expression) (hfinite : FiniteNumbers d.tokens)
    (source : Text) :
    (d.nesting ≤ maxDepth ∧ d.meaning.height ≤ maxDepth ∧
      ofTokens d.tokens source = .ok d.meaning) ∨
    ((maxDepth < d.nesting ∨ maxDepth < d.meaning.height) ∧ ∃ found position,
      ofTokens d.tokens source
        = .error ⟨.mismatch "expression" found (some Failure.tooDeepReason), position, source⟩) := by
  have hverdict : Verdict (.ofList d.tokens) source (ofTokens d.tokens source) := verdict _ _
  generalize ofTokens d.tokens source = result at hverdict ⊢
  cases hverdict with
  | read d' tokens_eq fault finite nesting height_le =>
    obtain rfl := Derivation.tokens_injective tokens_eq
    exact .inl ⟨nesting, height_le, rfl⟩
  | stopped w tokens_eq fault describes viable excludes =>
    have hexcluded := excludes d _ tokens_eq rfl
    cases w with
    | refused => exact hexcluded.elim
    | outOfRange => exact absurd hfinite hexcluded
    | tooDeep =>
      obtain ⟨rfl, rfl⟩ := describes
      exact .inr ⟨hexcluded, _, _, rfl⟩
  | faulty fault => cases fault

/-- The parser accepts its grammar within its two limits.  A list of tokens is parsed to a formula
iff it has a derivation that stands for the formula, with finite numbers, and neither the nesting of
the derivation nor the height of the formula is beyond the limit; the list has at most one
derivation.  If it has one and its numbers are finite, but a limit is exceeded, the error says so,
and every other error also is that something else was expected at some token. -/
theorem ofTokens_accepts_grammar (ts : List Token) (source : Text) :
    (∀ f, ofTokens ts source = .ok f ↔ ∃ d : Derivation .expression, d.tokens = ts ∧ d.meaning = f ∧
      FiniteNumbers ts ∧ d.nesting ≤ maxDepth ∧ f.height ≤ maxDepth) ∧
    (∀ d d' : Derivation .expression, d.tokens = ts → d'.tokens = ts → d = d') ∧
    (∀ d : Derivation .expression, d.tokens = ts → FiniteNumbers ts →
      maxDepth < d.nesting ∨ maxDepth < d.meaning.height → ∃ found position,
        ofTokens ts source
          = .error ⟨.mismatch "expression" found (some Failure.tooDeepReason), position, source⟩) ∧
    (∀ e, ofTokens ts source = .error e → ∃ expected found reason?,
      e.cause = .mismatch expected found reason?) := by
  refine ⟨fun f => ⟨fun hf => ?_, ?_⟩, ?_, ?_, ?_⟩
  · obtain ⟨d, rfl, -, hmeaning, hfinite, hnesting, hheight⟩ := exists_derivation hf
    exact ⟨d, rfl, hmeaning, hfinite, hnesting, hheight⟩
  · rintro ⟨d, rfl, rfl, hfinite, hnesting, hheight⟩
    rcases ofTokens_tokens d hfinite source with ⟨-, -, hok⟩ | ⟨hlimit, -⟩
    · exact hok
    · omega
  · exact fun d d' hd hd' => Derivation.tokens_injective (hd.trans hd'.symm)
  · rintro d rfl hfinite hlimit
    rcases ofTokens_tokens d hfinite source with ⟨hnesting, hheight, -⟩ | ⟨-, herror⟩
    · omega
    · exact herror
  · intro e he
    have hverdict : Verdict (.ofList ts) source (ofTokens ts source) := verdict _ _
    rw [he] at hverdict
    cases hverdict with
    | stopped => exact ⟨_, _, _, rfl⟩
    | faulty fault => cases fault

/-- There are derivations of any nesting. -/
lemma exists_lt_nesting (n : Nat) :
    ∃ d : Derivation (.phrase .unary), n < d.nesting ∧ FiniteNumbers d.tokens := by
  induction n with
  | zero =>
    refine ⟨.positive (.bare (.name ⟨⟨.identifier, [], 0⟩, rfl⟩)), by simp [Derivation.nesting], ?_⟩
    simp [Derivation.tokens, FiniteNumbers]
  | succ n ih =>
    obtain ⟨d, hd, hfinite⟩ := ih
    refine ⟨.negation ⟨⟨.operator .sub, [], 0⟩, rfl⟩ d, ?_, ?_⟩
    · rw [Derivation.nesting]
      omega
    · rwa [Derivation.tokens, finiteNumbers_cons _ (by simp)]

theorem ofTokens_single_and_deep :
    ofTokens [⟨.identifier, "x", 0⟩] [] = .ok (.symbol "x" 0) ∧
    ∃ d : Derivation .expression, FiniteNumbers d.tokens ∧ maxDepth < d.nesting ∧
      ∃ found position, ofTokens d.tokens []
        = .error ⟨.mismatch "expression" found (some Failure.tooDeepReason), position, []⟩ := by
  constructor
  · refine ((ofTokens_accepts_grammar _ _).1 _).mpr
      ⟨.chain (.chain (.positive (.bare (.name ⟨⟨.identifier, "x", 0⟩, rfl⟩))) .done) .done, rfl, rfl,
        ?_, by decide, by decide⟩
    simp [FiniteNumbers]
  · obtain ⟨d, hd, hfinite⟩ := exists_lt_nesting maxDepth
    obtain ⟨whole, htokens, hnesting⟩ : ∃ whole : Derivation .expression,
        whole.tokens = d.tokens ∧ d.nesting ≤ whole.nesting := by
      refine ⟨.chain (.chain d .done) .done, ?_, ?_⟩
      · change (d.tokens ++ []) ++ [] = d.tokens
        simp only [List.append_nil]
      · change d.nesting ≤ max (max d.nesting 0) 0
        omega
    rw [← htokens] at hfinite
    exact ⟨whole, hfinite, by omega,
      (ofTokens_accepts_grammar _ _).2.2.1 whole rfl hfinite (.inl (by omega))⟩

/-- A front in front of a refused token is the longest one. -/
lemma isGreatest_viable {ts rest : List Token} (viable : expression.Viable ts)
    (refused : ∀ t ∈ rest.head?, ¬ expression.Viable (ts ++ [t])) :
    IsGreatest { n | n ≤ (ts ++ rest).length ∧ expression.Viable ((ts ++ rest).take n) }
      ts.length := by
  constructor
  · exact ⟨by simp, by simpa using viable⟩
  · rintro n ⟨hn, d, hd⟩
    by_contra hlt
    cases rest with
    | nil =>
      simp at hn
      omega
    | cons t rest =>
      -- a longer front would hold the refused token
      have hfront : ts ++ [t] <+: (ts ++ t :: rest).take n := by
        rw [List.prefix_take_iff]
        refine ⟨by simp, ?_⟩
        simp only [List.length_append, List.length_singleton]
        omega
      exact refused t rfl ⟨d, hfront.trans hd⟩

/-- A text that is no formula is refused at the leftmost token that cannot stand there.  Of the
tokens in front of the first stray character, let the first `k` be the longest front of a
derivation.  If there is a token behind them, the error is that something else was expected there,
also if a stray character follows; if not, it is the stray character, or if there is none, that
something was expected at the end of the text.  Errors because of the limits are left out. -/
theorem ofText_error_leftmost {source : Text} {e : FormulaError}
    (herror : ofText source = .error e) (hdepth : e.reason ≠ Failure.tooDeepReason)
    (hrange : ∀ t, e.reason ≠ Failure.outOfRangeReason t) :
    ∃ k, IsGreatest { n | n ≤ (TokenStream.ofText source).tokens.length ∧
        expression.Viable ((TokenStream.ofText source).tokens.take n) } k ∧
      (∀ t, (TokenStream.ofText source).tokens[k]? = some t → ∃ expected reason?,
        e = ⟨.mismatch expected ("'" ++ t.text ++ "'") reason?, t.position, source⟩) ∧
      (k = (TokenStream.ofText source).tokens.length →
        (∀ fault, (TokenStream.ofText source).fault? = some fault → e = fault) ∧
        ((TokenStream.ofText source).fault? = none → ∃ expected reason?,
          e = ⟨.mismatch expected "end of input" reason?, source.length, source⟩)) := by
  have hverdict := verdict (.ofText source) source
  change Verdict _ _ (ofText source) at hverdict
  rw [herror] at hverdict
  cases hverdict with
  | @stopped w ts rest expected reason? tokens_eq fault describes viable excludes =>
    cases w with
    | outOfRange =>
      obtain ⟨rfl, t, -, rfl⟩ := describes
      exact absurd rfl (hrange t)
    | tooDeep =>
      obtain ⟨rfl, rfl⟩ := describes
      exact absurd rfl hdepth
    | refused =>
      rw [tokens_eq]
      refine ⟨ts.length, isGreatest_viable viable fun t ht hviable => ?_, ?_, ?_⟩
      · obtain ⟨d, us, hus⟩ := hviable
        exact excludes d (t :: us) (by simpa using hus.symm) (by rw [ht]; rfl)
      · intro t ht
        have hhead : rest.head? = some t := by
          rw [List.getElem?_append_right (Nat.le_refl _), Nat.sub_self] at ht
          rwa [List.head?_eq_getElem?]
        exact ⟨expected, reason?, by rw [hhead]; rfl⟩
      · intro hlength
        obtain rfl : rest = [] := by simpa using hlength
        refine ⟨fun e' he' => by simp [fault rfl] at he', fun _ => ⟨expected, reason?, ?_⟩⟩
        cases source with
        | nil =>
          rw [TokenStream.ofText, TokenStream.ofRest]
          rfl
        | cons u source => rfl
  | faulty fault viable =>
    refine ⟨(TokenStream.ofText source).tokens.length, ?_, ?_, ?_⟩
    · have hrefused : ∀ t ∈ ([] : List Token).head?,
          ¬ expression.Viable ((TokenStream.ofText source).tokens ++ [t]) := by simp
      have hgreatest := isGreatest_viable viable hrefused
      rwa [List.append_nil] at hgreatest
    · intro t ht
      simp at ht
    · refine fun _ => ⟨fun e' he' => ?_, fun hnone => ?_⟩
      · exact Option.some.inj (fault.symm.trans he')
      · simp [hnone] at fault

theorem ofText_error_leftmost_closing : ∃ e, ofText "x)~" = .error e ∧
    ∃ k, IsGreatest { n | n ≤ (TokenStream.ofText "x)~").tokens.length ∧
        expression.Viable ((TokenStream.ofText "x)~").tokens.take n) } k ∧
      (∀ t, (TokenStream.ofText "x)~").tokens[k]? = some t → ∃ expected reason?,
        e = ⟨.mismatch expected ("'" ++ t.text ++ "'") reason?, t.position, "x)~"⟩) ∧
      (k = (TokenStream.ofText "x)~").tokens.length →
        (∀ fault, (TokenStream.ofText "x)~").fault? = some fault → e = fault) ∧
        ((TokenStream.ofText "x)~").fault? = none → ∃ expected reason?,
          e = ⟨.mismatch expected "end of input" reason?, (Text.ofString "x)~").length, "x)~"⟩)) := by
  have herror : ofText "x)~" = .error ⟨.mismatch "end of input" "')'" none, 1, "x)~"⟩ := by cbv
  refine ⟨_, herror, ofText_error_leftmost herror (by decide) fun t h => ?_⟩
  have hhead : some (unit 'E') = some (unit 'N') := congrArg List.head? h
  exact absurd hhead (by decide)

end Formula

end FunctionPlot
