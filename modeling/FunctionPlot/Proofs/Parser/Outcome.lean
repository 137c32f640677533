/-
# What reading a phrase can come to

An action of a parser that reads the phrases of a nonterminal does one of three things, and
`Outcome` says which and what follows.

* It reads a derivation from the nonterminal that is within the limits, and the token behind it
  does not continue the phrase.
* It stops at its current token and gives one of three reasons (`Failure`).  The tokens taken so
  far are the front of a derivation, and every derivation whose tokens agree with them and with the
  current token has the fault that the reason names.  When the token itself is refused there is no
  such derivation.
* It meets the error behind the last token of its stream, and all the tokens are the front of a
  derivation.

An outcome of a part of a phrase becomes one of the whole phrase by `Outcome.error_of_part` if the
part fails, and `Outcome.built` adds the node at the root of a phrase that was read.
-/
import FunctionPlot.Proofs.Grammar.Unambiguous
import FunctionPlot.Proofs.Parser.State

namespace FunctionPlot

/-- Every number among some tokens is finite. -/
def FiniteNumbers (ts : List Token) : Prop :=
  ∀ t ∈ ts, ∀ value, t.kind = .number value → value.isFinite

lemma finiteNumbers_append {ts us : List Token} :
    FiniteNumbers (ts ++ us) ↔ FiniteNumbers ts ∧ FiniteNumbers us := by
  simp only [FiniteNumbers, List.mem_append, or_imp, forall_and]

/-- A token that is no number can be left out. -/
lemma finiteNumbers_cons {kind : TokenKind} (t : Token.Of kind) (h : ∀ value, kind ≠ .number value)
    {ts : List Token} : FiniteNumbers (t.val :: ts) ↔ FiniteNumbers ts := by
  simp only [FiniteNumbers, List.mem_cons, forall_eq_or_imp, t.property, and_iff_right_iff_imp]
  exact fun _ value hvalue => absurd hvalue (h value)

@[simp] lemma finiteNumbers_nil : FiniteNumbers [] := by simp [FiniteNumbers]

/-- Some tokens are the front of a derivation. -/
def Nonterminal.Viable (G : Nonterminal) (ts : List Token) : Prop :=
  ∃ d : Derivation G, ts <+: d.tokens

/-- Why a parser stops at its current token. -/
inductive Failure where
  /-- The grammar does not allow the token there. -/
  | refused
  /-- The token is a number that is not finite. -/
  | outOfRange
  /-- The nesting or the height is too great. -/
  | tooDeep
deriving DecidableEq

namespace Failure

/-- The reason that is given for a nesting or a height that is too great. -/
def tooDeepReason : Text := "Expression is nested more than 200 levels deep"

/-- The reason that is given for a number that is not finite. -/
def outOfRangeReason (t : Token) : Text := "Number out of range: " ++ t.text

/-- What the error of a parser that stops in front of a token or at the end says it expected, and
the reason it gives. -/
def Describes : Failure → Option Token → Text → Option Text → Prop
  | refused, _, _, reason? => reason? = none ∨ reason? = some "Empty expression"
  | outOfRange, next?, expected, reason? =>
    expected = "finite number" ∧ ∃ t, next? = some t ∧ reason? = some (outOfRangeReason t)
  | tooDeep, _, expected, reason? => expected = "expression" ∧ reason? = some tooDeepReason

/-- The fault of the derivations that agree with the tokens up to where a parser stops, of which
`tokens`, `nesting` and `height` are given. -/
def Excludes (w : Failure) (allowance : Nat) (ts : List Token) (nesting height : Nat) : Prop :=
  match w with
  | refused => False
  | outOfRange => ¬ FiniteNumbers ts
  | tooDeep => allowance < nesting ∨ maxDepth < height

/-- A fault of a part is a fault of the whole. -/
lemma Excludes.of_part {w : Failure} {a a' n n' h h' : Nat} {ts us : List Token}
    (hw : w.Excludes a ts n h) (ha : a' + n ≤ a + n') (hts : FiniteNumbers us → FiniteNumbers ts)
    (hh : h ≤ h') : w.Excludes a' us n' h' := by
  cases w with
  | refused => exact hw
  | outOfRange => exact fun hus => hw (hts hus)
  | tooDeep =>
    rcases hw with hw | hw
    · exact .inl (by omega)
    · exact .inr (by omega)

end Failure

/-- What an action that reads a phrase of `G` comes to for the parser `p`, when at most `allowance`
`unary`s may be nested in the phrase.  The phrase stands for a value that has a height. -/
inductive Outcome {α : Type} (G : Nonterminal) (allowance : Nat) (height : α → Nat)
    (value : Derivation G → α) (p : Parser) : EStateM.Result FormulaError Parser α → Prop where
  /-- A phrase is read. -/
  | read {q : Parser} (d : Derivation G) (reads : p.Reads d.tokens q) (depth : q.depth = p.depth)
      (ends : d.Ends q.tokens) (finite : FiniteNumbers d.tokens) (nesting : d.nesting ≤ allowance)
      (height_le : height (value d) ≤ maxDepth) :
      Outcome G allowance height value p (.ok (value d) q)
  /-- The parser stops at its current token. -/
  | stopped {q : Parser} {ts : List Token} {expected : Text} {reason? : Option Text} (w : Failure)
      (reads : p.Reads ts q) (depth_ge : p.depth ≤ q.depth)
      (depth_le : q.depth ≤ p.depth + allowance)
      (describes : w.Describes q.current? expected reason?) (viable : G.Viable ts)
      (excludes : ∀ (d : Derivation G) (rest us : List Token), d.Ends rest →
        d.tokens ++ rest = ts ++ us → us.head? = q.tokens.head? →
        w.Excludes allowance d.tokens d.nesting (height (value d))) :
      Outcome G allowance height value p (.error (q.mismatch expected reason?) q)
  /-- The parser meets the error behind its last token. -/
  | faulty {q : Parser} {ts : List Token} {t : Token} {fault : FormulaError} (reads : p.Reads ts q)
      (depth_ge : p.depth ≤ q.depth) (depth_le : q.depth ≤ p.depth + allowance)
      (current : q.current? = some t) (stream : q.stream = ⟨[], some fault⟩)
      (viable : G.Viable (ts ++ [t])) :
      Outcome G allowance height value p (.error fault q.afterFault)

/-- An action reads the formulas of a level. -/
def ReadsPhrase (level : Level) (allowance : Nat) (action : Parsing Formula) : Prop :=
  ∀ p : Parser, p.Settled →
    Outcome (.phrase level) allowance Formula.height Derivation.meaning p (action p)

namespace Outcome

variable {α β γ : Type} {G H : Nonterminal} {a b : Nat} {height : α → Nat} {size : β → Nat}
  {value : Derivation G → α} {content : Derivation H → β} {p q : Parser} {ts : List Token}

/-- A failure in a part of a phrase is a failure in the phrase: the tokens `ts` are taken before
the part, and every derivation that begins with them and agrees with the next token has such a part
there. -/
lemma error_of_part {e : FormulaError} {r : Parser} (h : Outcome H b size content q (.error e r))
    (reads : p.Reads ts q) (depth_ge : p.depth ≤ q.depth) (depth_le : q.depth + b ≤ p.depth + a)
    (viable : ∀ d : Derivation H, G.Viable (ts ++ d.tokens))
    (part : ∀ (d : Derivation G) (rest us : List Token), d.Ends rest → d.tokens ++ rest = ts ++ us →
      us.head? = q.tokens.head? → ∃ (d' : Derivation H) (rest' : List Token), d'.Ends rest' ∧
        us = d'.tokens ++ rest' ∧ a + d'.nesting ≤ b + d.nesting ∧ d'.tokens ⊆ d.tokens ∧
        size (content d') ≤ height (value d)) :
    Outcome G a height value p (.error e r) := by
  have hviable : ∀ us, H.Viable us → G.Viable (ts ++ us) := by
    rintro us ⟨d, hd⟩
    obtain ⟨d', hd'⟩ := viable d
    exact ⟨d', ((List.prefix_append_right_inj ts).mpr hd).trans hd'⟩
  cases h with
  | @stopped _ taken expected reason? w reads' hge hle describes viable' excludes =>
    refine .stopped w (reads.trans reads') (by omega) (by omega) describes (hviable _ viable') ?_
    -- the derivation has a part where this one was read, and the fault is in that part
    intro d rest us hends heq hhead
    rw [List.append_assoc] at heq
    have hnext : (taken ++ us).head? = q.tokens.head? := by
      rw [reads'.tokens_eq, List.head?_append, List.head?_append, hhead]
    obtain ⟨d', rest', hends', heq', hnesting, hsub, hheight⟩ := part d rest _ hends heq hnext
    exact (excludes d' rest' us hends' heq'.symm hhead).of_part hnesting
      (fun hfinite t ht => hfinite t (hsub ht)) hheight
  | faulty reads' hge hle current stream viable' =>
    refine .faulty (reads.trans reads') (by omega) (by omega) current stream ?_
    rw [List.append_assoc]
    exact hviable _ viable'

/-- A part of a phrase is read, and then the rest. -/
lemma bind_part {x : Parsing β} {f : β → Parsing α} (h : Outcome H b size content q (x q))
    (reads : p.Reads ts q) (depth_ge : p.depth ≤ q.depth) (depth_le : q.depth + b ≤ p.depth + a)
    (viable : ∀ d : Derivation H, G.Viable (ts ++ d.tokens))
    (part : ∀ (d : Derivation G) (rest us : List Token), d.Ends rest → d.tokens ++ rest = ts ++ us →
      us.head? = q.tokens.head? → ∃ (d' : Derivation H) (rest' : List Token), d'.Ends rest' ∧
        us = d'.tokens ++ rest' ∧ a + d'.nesting ≤ b + d.nesting ∧ d'.tokens ⊆ d.tokens ∧
        size (content d') ≤ height (value d))
    (next : ∀ (d : Derivation H) (r : Parser), q.Reads d.tokens r → r.depth = q.depth →
      d.Ends r.tokens → FiniteNumbers d.tokens → d.nesting ≤ b → size (content d) ≤ maxDepth →
      Outcome G a height value p (f (content d) r)) :
    Outcome G a height value p ((x >>= f) q) := by
  cases hx : x q with
  | error e r =>
    rw [hx] at h
    rw [Parsing.bind_error hx]
    exact h.error_of_part reads depth_ge depth_le viable part
  | ok y r =>
    rw [hx] at h
    rw [Parsing.bind_ok hx]
    cases h with
    | read d reads' depth ends finite nesting height_le =>
      exact next d r reads' depth ends finite nesting height_le

/-- A token inside of a phrase is taken, and then the rest is read. -/
lemma bind_takes {x : Parsing γ} {f : γ → Parsing α} {t : Token} {c : γ}
    (h : Parsing.Takes q t c (x q)) (current : q.current? = some t) (reads : p.Reads ts q)
    (depth_ge : p.depth ≤ q.depth) (depth_le : q.depth ≤ p.depth + a)
    (viable : G.Viable (ts ++ [t]))
    (next : ∀ r : Parser, q.Reads [t] r → r.depth = q.depth →
      Outcome G a height value p (f c r)) :
    Outcome G a height value p ((x >>= f) q) := by
  cases hx : x q with
  | error e r =>
    rw [hx] at h
    rw [Parsing.bind_error hx]
    cases h with
    | fault stream => exact .faulty reads depth_ge depth_le current stream viable
  | ok y r =>
    rw [hx] at h
    rw [Parsing.bind_ok hx]
    cases h with
    | taken reads' depth => exact next r reads' depth

/-- The node at the root of a phrase that was read is built or is too high. -/
lemma bind_build {value : Derivation G → Formula} {f : Formula → Parsing Formula} (d : Derivation G)
    (reads : p.Reads d.tokens q) (depth_ge : p.depth ≤ q.depth) (depth_le : q.depth ≤ p.depth + a)
    (ends : d.Ends q.tokens)
    (next : (value d).height ≤ maxDepth → Outcome G a Formula.height value p (f (value d) q)) :
    Outcome G a Formula.height value p ((Parsing.build (value d) >>= f) q) := by
  rcases Nat.lt_or_ge maxDepth (value d).height with hheight | hheight
  · -- the tokens that were taken have no other derivation
    rw [Parsing.bind_error (Parsing.build_eq_of_lt hheight)]
    refine .stopped .tooDeep reads depth_ge depth_le ⟨rfl, rfl⟩ ⟨d, List.prefix_rfl⟩ ?_
    intro d' rest us hends heq hhead
    obtain ⟨rfl, -⟩ := Derivation.tokens_append_inj d' d heq hends (ends.of_head? hhead)
    exact .inr hheight
  · rw [Parsing.bind_ok (Parsing.build_eq_of_le hheight)]
    exact next hheight

lemma built {value : Derivation G → Formula} (d : Derivation G) (reads : p.Reads d.tokens q)
    (depth : q.depth = p.depth) (ends : d.Ends q.tokens) (finite : FiniteNumbers d.tokens)
    (nesting : d.nesting ≤ a) :
    Outcome G a Formula.height value p (Parsing.build (value d) q) := by
  rw [← bind_pure (Parsing.build _)]
  exact bind_build d reads (by omega) (by omega) ends fun hheight =>
    .read d reads depth ends finite nesting hheight

/-- The current token is refused. -/
lemma refused (reads : p.Reads ts q) (depth_ge : p.depth ≤ q.depth)
    (depth_le : q.depth ≤ p.depth + a) (expected : Text) (viable : G.Viable ts)
    (refuses : ∀ (d : Derivation G) (rest us : List Token), d.Ends rest →
      d.tokens ++ rest = ts ++ us → us.head? ≠ q.tokens.head?) :
    Outcome G a height value p (Parsing.fail expected none q) :=
  .stopped .refused reads depth_ge depth_le (.inl rfl) viable fun d rest us hends heq hhead =>
    refuses d rest us hends heq hhead

end Outcome

end FunctionPlot
