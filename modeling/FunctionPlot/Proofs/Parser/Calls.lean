/-
# Parsers that are asked again and again

A parser can be asked for a formula any number of times, whatever it answered before.
`Parser.Reachable` are the parsers that come out of this, of which each is consistent
(`Reachable.consistent`): one call keeps consistency.  Every answer is then that of a new parser for
the tokens that are left, except that fewer `unary`s may be nested where earlier calls gave up
inside of them (`Reachable.parse_answer`).
-/
import FunctionPlot.Proofs.Parser.Verdict

namespace FunctionPlot

namespace Parser

/-- The parsers of a text: the one that looks at its first token, and what becomes of one of them
that is asked for a formula. -/
inductive Reachable (text source : Text) : Parser → Prop where
  /-- A new parser. -/
  | start {p : Parser} (h : Parser.start (.ofText text) source = .ok p) : Reachable text source p
  /-- A parser that was asked. -/
  | parse {p : Parser} (h : Reachable text source p) : Reachable text source p.parse.2

/-- What holds of a parser between two calls. -/
structure Consistent (p : Parser) : Prop where
  settled : p.Settled
  depth_le : p.depth ≤ maxDepth

variable {text source : Text} {p q : Parser}

lemma settled_start {stream : TokenStream} (h : start stream source = .ok p) : p.Settled := by
  obtain ⟨_ | ⟨t, ts⟩, _ | fault⟩ := stream
  · cases h
    exact fun _ => rfl
  · cases h
  · cases h
    exact (nomatch ·)
  · cases h
    exact (nomatch ·)

lemma depth_start {stream : TokenStream} (h : start stream source = .ok p) : p.depth = 0 := by
  obtain ⟨_ | ⟨t, ts⟩, _ | fault⟩ := stream <;> cases h <;> rfl

lemma afterFault_tokens {t : Token} (h : p.current? = some t) : p.afterFault.tokens = [t] := by
  simp [afterFault, tokens, h, TokenStream.ended]

namespace Answers

variable {result : Except FormulaError Formula × Parser}

/-- A call keeps a parser consistent. -/
lemma consistent (h : p.Answers result) (hp : p.Consistent) : result.2.Consistent := by
  have hsub : p.depth + (maxDepth - p.depth) = maxDepth := Nat.add_sub_cancel' hp.depth_le
  cases h with
  | read d reads ended depth => exact ⟨reads.settled, depth.trans_le hp.depth_le⟩
  | stopped w reads depth_ge depth_le => exact ⟨reads.settled, depth_le.trans_eq hsub⟩
  | @faulty q ts t fault reads depth_ge depth_le current =>
    refine ⟨fun hnone => ?_, depth_le.trans_eq hsub⟩
    have hcurrent : q.current? = none := hnone
    rw [current] at hcurrent
    cases hcurrent

lemma depth_ge (h : p.Answers result) : p.depth ≤ result.2.depth := by
  cases h with
  | read d reads ended depth => exact depth.ge
  | stopped w reads depth_ge => exact depth_ge
  | faulty reads depth_ge => exact depth_ge

/-- What is left is an end of what was left before. -/
lemma tokens_suffix (h : p.Answers result) : result.2.tokens <:+ p.tokens := by
  cases h with
  | read d reads => exact ⟨_, reads.tokens_eq.symm⟩
  | stopped w reads => exact ⟨_, reads.tokens_eq.symm⟩
  | @faulty q ts t fault reads depth_ge depth_le current stream =>
    refine ⟨ts, ?_⟩
    rw [afterFault_tokens current, reads.tokens_eq, tokens_of_current? current, stream]

/-- A stray character leaves the token in front of it and nothing else. -/
lemma of_stray (h : p.Answers result) {e : FormulaError} (he : result.1 = .error e)
    {character : Text} (hstray : e.cause = .strayCharacter character) :
    ∃ t, result.2.current? = some t ∧ result.2.tokens = [t] := by
  cases h with
  | read => cases he
  | stopped =>
    cases he
    cases hstray
  | faulty reads depth_ge depth_le current => exact ⟨_, current, afterFault_tokens current⟩

/-- A formula is given for all the tokens. -/
lemma of_ok (h : p.Answers result) {f : Formula} (hf : result.1 = .ok f) :
    ∃ d : Derivation .expression, d.tokens = p.tokens ∧ d.meaning = f ∧ FiniteNumbers d.tokens ∧
      d.nesting ≤ maxDepth - p.depth ∧ f.height ≤ maxDepth ∧ result.2.depth = p.depth ∧
      result.2.current? = none ∧ result.2.tokens = [] := by
  cases h with
  | read d reads ended depth finite nesting height_le =>
    cases hf
    have hnil := reads.settled.tokens_eq_nil.mpr ended
    refine ⟨d, ?_, rfl, finite, nesting, height_le, depth, ended, hnil⟩
    rw [reads.tokens_eq, hnil, List.append_nil]
  | stopped => cases hf
  | faulty => cases hf

/-- If the tokens that are left are a formula within the limits and no error is behind them, this
formula is the answer. -/
lemma of_derivation (h : p.Answers result) (d : Derivation .expression) (hd : d.tokens = p.tokens)
    (hfault : p.stream.fault? = none) (hfinite : FiniteNumbers d.tokens)
    (hnesting : d.nesting ≤ maxDepth - p.depth) (hheight : d.meaning.height ≤ maxDepth) :
    result.1 = .ok d.meaning := by
  cases h with
  | read d' reads ended =>
    rw [reads.tokens_eq, reads.settled.tokens_eq_nil.mpr ended, List.append_nil] at hd
    obtain rfl := Derivation.tokens_injective hd
    rfl
  | stopped w reads depth_ge depth_le describes viable excludes =>
    have hexcluded := excludes d _ (hd.trans reads.tokens_eq) rfl
    cases w with
    | refused => exact hexcluded.elim
    | outOfRange => exact absurd hfinite hexcluded
    | tooDeep =>
      rcases hexcluded with hdeep | hhigh
      · exact absurd hnesting (Nat.not_le.mpr hdeep)
      · exact absurd hheight (Nat.not_le.mpr hhigh)
  | faulty reads depth_ge depth_le current stream =>
    rw [← reads.fault_eq, stream] at hfault
    cases hfault

end Answers

/-- All the parsers of a text are consistent. -/
theorem Reachable.consistent (h : Reachable text source p) : p.Consistent := by
  induction h with
  | start hstart => exact ⟨settled_start hstart, (depth_start hstart).trans_le (Nat.zero_le _)⟩
  | parse _ ih => exact (answers_parse ih.settled).consistent ih

/-- A parser without tokens has nothing to say any more. -/
lemma parses_of_none (h : p.current? = none) (n : Nat) :
    p.parses n = List.replicate n (.error (p.mismatch "expression" (some "Empty expression"))) := by
  induction n with
  | zero => rfl
  | succ n ih => rw [parses, parse_of_none h, List.replicate_succ, ← ih]

/-- However often the parser of a text was asked before, a call does not make its depth less, nor
greater than the limit, and a formula leaves it as it is.  What is left is an end of what was left
before, and of this only the current token if there is a stray character behind it.  A formula is
what a new parser makes of the tokens, and leaves none of them to any later call.  If a new parser
makes a formula of the tokens and its nesting fits in, this is the answer, unless a stray character
is due. -/
theorem Reachable.parse_answer (h : Reachable text source p) :
    (p.parse.2.depth ≤ maxDepth ∧ p.depth ≤ p.parse.2.depth ∧
      ∀ f, p.parse.1 = .ok f → p.parse.2.depth = p.depth) ∧
    (p.parse.2.tokens <:+ p.tokens ∧
      ∀ e character, p.parse.1 = .error e → e.cause = .strayCharacter character →
        ∃ t, p.parse.2.current? = some t ∧ p.parse.2.tokens = [t]) ∧
    (∀ f, p.parse.1 = .ok f →
      (∀ source', Formula.ofTokens p.tokens source' = .ok f) ∧ p.parse.2.tokens = [] ∧
      ∀ n, ∀ answer ∈ p.parse.2.parses n,
        ∃ e, answer = .error e ∧ e.reason = "Empty expression") ∧
    ∀ (d : Derivation .expression) (f : Formula) (source' : Text), d.tokens = p.tokens →
      Formula.ofTokens p.tokens source' = .ok f → d.nesting ≤ maxDepth - p.depth →
      p.stream.fault? = none → p.parse.1 = .ok f := by
  have hconsistent := h.consistent
  have hanswers := answers_parse hconsistent.settled
  refine ⟨⟨(hanswers.consistent hconsistent).depth_le, hanswers.depth_ge, fun f hf => ?_⟩,
    ⟨hanswers.tokens_suffix, fun e character he hstray => hanswers.of_stray he hstray⟩,
    fun f hf => ?_, ?_⟩
  · obtain ⟨-, -, -, -, -, -, hdepth, -⟩ := hanswers.of_ok hf
    exact hdepth
  · obtain ⟨d, hd, rfl, hfinite, hnesting, hheight, -, hnone, hnil⟩ := hanswers.of_ok hf
    refine ⟨fun source' => ?_, hnil, fun n answer hanswer => ?_⟩
    · rw [← hd]
      rcases Formula.ofTokens_tokens d hfinite source' with ⟨-, -, hok⟩ | ⟨hlimit, -⟩
      · exact hok
      · omega
    · rw [parses_of_none hnone] at hanswer
      exact ⟨_, List.eq_of_mem_replicate hanswer, rfl⟩
  · intro d f source' hd hok hnesting hfault
    obtain ⟨d', hd', -, rfl, hfinite, -, hheight⟩ := Formula.exists_derivation hok
    obtain rfl : d = d' := Derivation.tokens_injective (hd.trans hd'.symm)
    exact hanswers.of_derivation d hd hfault hfinite hnesting hheight

theorem Reachable.parse_answer_stray : ∃ p, Parser.start (.ofText "x ~") "x ~" = .ok p ∧
    p.parse.1 = .error ⟨.strayCharacter "~", 2, "x ~"⟩ ∧
    p.parse.2.tokens = [⟨.identifier, "x", 0⟩] ∧ p.parse.2.depth = 1 ∧
    p.parse.2.parse.1 = .ok (.symbol "x" 0) ∧
    Formula.ofTokens p.parse.2.tokens [] = .ok (.symbol "x" 0) ∧
    ∀ n, ∀ answer ∈ p.parse.2.parse.2.parses n,
      ∃ e, answer = .error e ∧ e.reason = "Empty expression" := by
  have htext : TokenStream.ofText "x ~"
      = ⟨[⟨.identifier, "x", 0⟩], some (TokenStream.stray "x ~" 2 (unit '~'))⟩ := by cbv
  -- the name counts as taken but stays in place, inside of one `unary`
  obtain ⟨p, hstart, hp⟩ : ∃ p, Parser.start (.ofText "x ~") "x ~" = .ok p ∧
      p.parse = (.error ⟨.strayCharacter "~", 2, "x ~"⟩,
        ⟨some ⟨.identifier, "x", 0⟩, some ⟨.identifier, "x", 0⟩, .ended, 1, "x ~"⟩) := by
    rw [htext]
    exact ⟨_, rfl, rfl⟩
  have hagain : p.parse.2.parse.1 = .ok (.symbol "x" 0) := by
    rw [hp]
    rfl
  obtain ⟨-, -, hok, -⟩ := (Reachable.start hstart).parse.parse_answer
  obtain ⟨hnew, -, hlater⟩ := hok _ hagain
  refine ⟨p, hstart, ?_, ?_, ?_, hagain, hnew [], hlater⟩
  · rw [hp]
  · rw [hp]
    rfl
  · rw [hp]

end Parser

end FunctionPlot
