/-
# What a parser answers

A parser can be asked for a formula in any state, also inside of `unary`s that were given up, so
that fewer of them may be nested in what it reads.  `Parser.Answers` says what it can answer and in
which state it is then, whatever state it was in.
-/
import FunctionPlot.Proofs.Parser.Phrase

namespace FunctionPlot

/-- What a parser answers that is asked for one formula, and what becomes of it. -/
inductive Parser.Answers (p : Parser) : Except FormulaError Formula × Parser → Prop where
  /-- All the tokens are a formula within the limits. -/
  | read {q : Parser} (d : Derivation .expression) (reads : p.Reads d.tokens q)
      (ended : q.current? = none) (depth : q.depth = p.depth) (finite : FiniteNumbers d.tokens)
      (nesting : d.nesting ≤ maxDepth - p.depth) (height_le : d.meaning.height ≤ maxDepth) :
      Answers p (.ok d.meaning, q)
  /-- The parser stops at its current token. -/
  | stopped {q : Parser} {ts : List Token} {expected : Text} {reason? : Option Text} (w : Failure)
      (reads : p.Reads ts q) (depth_ge : p.depth ≤ q.depth)
      (depth_le : q.depth ≤ p.depth + (maxDepth - p.depth))
      (describes : w.Describes q.current? expected reason?)
      (viable : Nonterminal.expression.Viable ts)
      (excludes : ∀ (d : Derivation .expression) (us : List Token), d.tokens = ts ++ us →
        us.head? = q.tokens.head? →
        w.Excludes (maxDepth - p.depth) d.tokens d.nesting d.meaning.height) :
      Answers p (.error (q.mismatch expected reason?), q)
  /-- The parser meets the error behind its last token. -/
  | faulty {q : Parser} {ts : List Token} {t : Token} {fault : FormulaError} (reads : p.Reads ts q)
      (depth_ge : p.depth ≤ q.depth) (depth_le : q.depth ≤ p.depth + (maxDepth - p.depth))
      (current : q.current? = some t) (stream : q.stream = ⟨[], some fault⟩)
      (viable : Nonterminal.expression.Viable (ts ++ [t])) :
      Answers p (.error fault, q.afterFault)

namespace Parsing

lemma formula_eq (p : Parser) :
    formula p = (if p.current?.isNone then fail "expression" (some "Empty expression")
      else expression (unary (maxDepth - p.depth)) >>= fun root => get >>= fun q =>
        if q.current?.isSome then fail "end of input" none else pure root : Parsing Formula) p :=
  rfl

lemma formula_bind_eq (f : Formula) (q : Parser) :
    (get >>= fun q => if q.current?.isSome then fail "end of input" none else pure f :
        Parsing Formula) q
      = (if q.current?.isSome then fail "end of input" none else pure f : Parsing Formula) q := rfl

end Parsing

namespace Parser

open Parsing

variable {p q : Parser}

/-- A parser without tokens says so and stays as it is. -/
lemma parse_of_none (h : p.current? = none) :
    p.parse = (.error (p.mismatch "expression" (some "Empty expression")), p) := by
  rw [parse, formula_eq, h]
  rfl

/-- Nothing but the end can stand behind an expression that was read. -/
lemma Answers.of_more {t : Token} (d : Derivation .expression) (reads : p.Reads d.tokens q)
    (depth : q.depth = p.depth) (ends : d.Ends q.tokens) (current : q.current? = some t) :
    p.Answers (.error (q.mismatch "end of input" none), q) := by
  refine .stopped .refused reads (Nat.le_of_eq depth.symm) (by omega) (.inl rfl)
    ⟨d, List.prefix_rfl⟩ ?_
  intro d' us heq hhead
  -- the tokens of an expression are not the front of those of another one
  rw [← List.append_nil d'.tokens] at heq
  obtain ⟨-, rfl⟩ := Derivation.tokens_append_inj d' d heq d'.ends_nil (ends.of_head? hhead)
  simp [tokens_of_current? current] at hhead

/-- What a parser answers in any state that it can be in. -/
theorem answers_parse (hp : p.Settled) : p.Answers p.parse := by
  by_cases hnone : p.current? = none
  · rw [parse_of_none hnone]
    refine .stopped .refused (.refl hp) (Nat.le_refl _) (Nat.le_add_right _ _) (.inr rfl)
      (viable_nil _) ?_
    intro d us heq hhead
    rw [hp.tokens_eq_nil.mpr hnone] at hhead
    obtain ⟨t, ts, hts, -⟩ := Derivation.exists_head d
    rw [← List.nil_append us, ← heq, hts] at hhead
    exact absurd hhead (by simp)
  · have hsome : ¬ p.current?.isNone := by simpa using hnone
    rw [parse, formula_eq, if_neg hsome]
    have houtcome := reads_expression (reads_unary (maxDepth - p.depth)) p hp
    cases hread : expression (unary (maxDepth - p.depth)) p with
    | error e q =>
      rw [hread] at houtcome
      rw [bind_error hread]
      cases houtcome with
      | stopped w reads hge hle describes viable excludes =>
        refine .stopped w reads hge hle describes viable fun d us heq hhead => ?_
        exact excludes d [] us d.ends_nil (by rw [List.append_nil, heq]) hhead
      | faulty reads hge hle current stream viable =>
        exact .faulty reads hge hle current stream viable
    | ok f q =>
      rw [hread] at houtcome
      rw [bind_ok hread]
      cases houtcome with
      | read d reads depth ends finite nesting height_le =>
        rw [formula_bind_eq]
        cases hcurrent : q.current? with
        | some t => exact .of_more d reads depth ends hcurrent
        | none => exact .read d reads hcurrent depth finite nesting height_le

end Parser

end FunctionPlot
