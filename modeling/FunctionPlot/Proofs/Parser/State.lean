/-
# States of a parser and the tokens it takes

What a parser can still read are its tokens, the current one and those behind it in the stream
(`Parser.tokens`).  `Parser.Reads p ts q` says that the parser `p` becomes `q` by taking the tokens
`ts`; everything but the depth is then determined.  The lemmas on `advance`, `accept` and
`acceptOperator` say which token they take, if any, and all that can happen then.
-/
import FunctionPlot.Proofs.Grammar

namespace FunctionPlot

namespace Parser

/-- The tokens that are left, the current one included. -/
def tokens (p : Parser) : List Token := p.current?.toList ++ p.stream.tokens

/-- A parser without a current token is at the end of its stream. -/
def Settled (p : Parser) : Prop := p.current? = none → p.stream = .ended

/-- A parser that met an error behind its current token: the token counts as taken but stays in
place, and the stream is at its end. -/
def afterFault (p : Parser) : Parser := { p with last? := p.current?, stream := .ended }

/-- The parser `p` becomes `q` by taking the tokens `ts`. -/
structure Reads (p : Parser) (ts : List Token) (q : Parser) : Prop where
  /-- The tokens are those in front of the ones that `q` has left. -/
  tokens_eq : p.tokens = ts ++ q.tokens
  /-- The error behind the tokens stays the same. -/
  fault_eq : q.stream.fault? = p.stream.fault?
  /-- The last of the tokens is remembered. -/
  last_eq : q.last? = ts.getLast?.or p.last?
  /-- The source stays the same. -/
  source_eq : q.source = p.source
  /-- At the end of the tokens nothing is left. -/
  settled : q.Settled

variable {p q r : Parser} {t : Token} {ts us : List Token}

lemma length_tokens (p : Parser) : p.tokens.length = p.remaining := by
  rw [tokens, List.length_append, remaining]

lemma tokens_of_current? (h : p.current? = some t) : p.tokens = t :: p.stream.tokens := by
  simp [tokens, h]

lemma Settled.head?_tokens (h : p.Settled) : p.tokens.head? = p.current? := by
  cases hp : p.current? with
  | none => simp [tokens, hp, h hp, TokenStream.ended]
  | some t => simp [tokens, hp]

lemma Settled.tokens_eq_nil (h : p.Settled) : p.tokens = [] ↔ p.current? = none := by
  rw [← List.head?_eq_none_iff, h.head?_tokens]

lemma Reads.refl (h : p.Settled) : p.Reads [] p := ⟨rfl, rfl, rfl, rfl, h⟩

lemma Reads.trans (h : p.Reads ts q) (h' : q.Reads us r) : p.Reads (ts ++ us) r where
  tokens_eq := by rw [h.tokens_eq, h'.tokens_eq, List.append_assoc]
  fault_eq := h'.fault_eq.trans h.fault_eq
  last_eq := by rw [h'.last_eq, h.last_eq, List.getLast?_append, Option.or_assoc]
  source_eq := h'.source_eq.trans h.source_eq
  settled := h'.settled

/-- The depth plays no part in what is read. -/
lemma Reads.withDepth (h : p.Reads ts q) (k : Nat) : p.Reads ts { q with depth := k } :=
  ⟨h.tokens_eq, h.fault_eq, h.last_eq, h.source_eq, h.settled⟩

/-- A parser that has taken a token has fewer left. -/
lemma Reads.remaining_lt (h : p.Reads (t :: ts) q) : q.remaining < p.remaining := by
  have hlength := congrArg List.length h.tokens_eq
  rw [length_tokens, List.length_append, List.length_cons, length_tokens] at hlength
  omega

lemma tokens_eq_nil_of_remaining (h : p.remaining = 0) : p.tokens = [] :=
  List.eq_nil_of_length_eq_zero (p.length_tokens.trans h)

end Parser

namespace Parsing

variable {α β : Type} {p q : Parser} {t : Token} {a : α} {e : FormulaError}

lemma bind_ok {x : Parsing α} {f : α → Parsing β} (h : x p = .ok a q) : (x >>= f) p = f a q := by
  change EStateM.bind x f p = f a q
  rw [EStateM.bind, h]

lemma bind_error {x : Parsing α} {f : α → Parsing β} (h : x p = .error e q) :
    (x >>= f) p = .error e q := by
  change EStateM.bind x f p = .error e q
  rw [EStateM.bind, h]

/-- What can happen when the current token is taken and a value is given back: the token is taken,
or the error behind it is met. -/
inductive Takes (p : Parser) (t : Token) (a : α) : EStateM.Result FormulaError Parser α → Prop where
  | taken {q : Parser} (reads : p.Reads [t] q) (depth : q.depth = p.depth) : Takes p t a (.ok a q)
  | fault {e : FormulaError} (stream : p.stream = ⟨[], some e⟩) :
    Takes p t a (.error e p.afterFault)

lemma takes_advance (h : p.current? = some t) : Takes p t () (advance p) := by
  -- the next token is taken from the stream, which has one, or is at its end, or has an error there
  rcases hs : p.stream with ⟨_ | ⟨t', ts⟩, fault?⟩
  · cases fault? with
    | none =>
      have hadv : advance p
          = .ok () { p with current? := none, last? := some t, stream := .ended } := by
        simp [advance, h, hs, TokenStream.next]
      rw [hadv]
      refine .taken ⟨?_, ?_, ?_, rfl, fun _ => rfl⟩ rfl
      · simp [Parser.tokens, h, hs, TokenStream.ended]
      · simp [hs, TokenStream.ended]
      · simp
    | some e =>
      have hadv : advance p = .error e p.afterFault := by
        simp [advance, h, hs, TokenStream.next, Parser.afterFault]
      rw [hadv]
      exact .fault hs
  · have hadv : advance p
        = .ok () { p with current? := some t', last? := some t, stream := ⟨ts, fault?⟩ } := by
      simp [advance, h, hs, TokenStream.next]
    rw [hadv]
    refine .taken ⟨?_, ?_, ?_, rfl, fun h' => nomatch h'⟩ rfl
    · simp [Parser.tokens, h, hs]
    · simp [hs]
    · simp

/-- What is done behind a token that was taken can only change the value. -/
lemma Takes.bind {x : Parsing α} {f : α → Parsing β} {b : β} (h : Takes p t a (x p))
    (hf : ∀ q, f a q = .ok b q) : Takes p t b ((x >>= f) p) := by
  cases hx : x p with
  | ok y q =>
    rw [hx] at h
    cases h with
    | taken reads depth =>
      rw [bind_ok hx, hf]
      exact .taken reads depth
  | error e q =>
    rw [hx] at h
    cases h with
    | fault stream =>
      rw [bind_error hx]
      exact .fault stream

lemma takes_advance_pure (h : p.current? = some t) (a : α) :
    Takes p t a ((advance *> pure a) p) := by
  have hbind : (advance *> pure a) p = (advance >>= fun _ => pure a) p := rfl
  rw [hbind]
  exact (takes_advance h).bind fun q => rfl

lemma build_eq_of_le {f : Formula} (h : f.height ≤ maxDepth) : build f p = .ok f p := by
  rw [build, if_neg (Nat.not_lt.mpr h)]
  rfl

lemma build_eq_of_lt {f : Formula} (h : maxDepth < f.height) : build f p = tooDeep p := by
  rw [build, if_pos h]

/-- A token of another kind stays where it is. -/
lemma accept_eq_of_ne {kind : TokenKind} (h : ∀ t ∈ p.current?, t.kind ≠ kind) :
    accept kind p = .ok false p := by
  have hany : p.current?.any (·.kind = kind) = false := by
    cases hp : p.current? with
    | none => rfl
    | some t => simpa using h t hp
  rw [accept, hany]
  rfl

/-- A token of the right kind is taken. -/
lemma takes_accept {kind : TokenKind} (t : Token.Of kind) (h : p.current? = some t.val) :
    Takes p t.val true (accept kind p) := by
  rw [accept, h]
  simpa [t.property] using takes_advance_pure h true

lemma expect_eq (kind : TokenKind) (description : Text) (p : Parser) : expect kind description p
    = (accept kind >>= fun found => if found then pure () else fail description none) p := rfl

lemma takes_expect {kind : TokenKind} (t : Token.Of kind) (h : p.current? = some t.val)
    (description : Text) : Takes p t.val () (expect kind description p) := by
  rw [expect_eq]
  exact (takes_accept t h).bind fun q => rfl

lemma expect_eq_of_ne {kind : TokenKind} (h : ∀ t ∈ p.current?, t.kind ≠ kind)
    (description : Text) : expect kind description p = fail description none p := by
  rw [expect_eq, bind_ok (accept_eq_of_ne h)]
  rfl

/-- An operator that is not asked for stays where it is. -/
lemma acceptOperator_eq_of_ne {operators : List Operator}
    (h : ∀ t ∈ p.current?, ∀ op ∈ operators, t.kind ≠ .operator op) :
    acceptOperator operators p = .ok none p := by
  unfold acceptOperator
  split
  · rename_i op text position hp
    exact if_neg fun hop => h _ hp op hop rfl
  · rfl

/-- An operator that is asked for is taken. -/
lemma takes_acceptOperator {operators : List Operator} {op : Operator} (hop : op ∈ operators)
    (sign : Token.Of (.operator op)) (h : p.current? = some sign.val) :
    Takes p sign.val (some (op, sign.val.position)) (acceptOperator operators p) := by
  obtain ⟨⟨kind, text, position⟩, hkind⟩ := sign
  change kind = .operator op at hkind
  change p.current? = some ⟨kind, text, position⟩ at h
  subst hkind
  have hacc : acceptOperator operators p = (advance *> pure (some (op, position))) p := by
    unfold acceptOperator
    rw [h]
    exact if_pos hop
  rw [hacc]
  exact takes_advance_pure h _

/-- Either an operator that is asked for is the current token, or there is none. -/
lemma exists_operator_or (p : Parser) (operators : List Operator) :
    (∃ op ∈ operators, ∃ sign : Token.Of (.operator op), p.current? = some sign.val) ∨
      ∀ t ∈ p.current?, ∀ op ∈ operators, t.kind ≠ .operator op := by
  by_cases h : ∃ op ∈ operators, ∃ sign : Token.Of (.operator op), p.current? = some sign.val
  · exact .inl h
  · exact .inr fun t ht op hop hkind => h ⟨op, hop, ⟨t, hkind⟩, ht⟩

end Parsing

end FunctionPlot
