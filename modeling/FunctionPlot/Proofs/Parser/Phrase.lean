/-
# The levels of the grammar as they are read

Each function of the parser reads the phrases of its level: if the functions that it calls have an
`Outcome` each, it has one too.  The last of these statements, `reads_unary`, goes by induction on
how many `unary`s may still be nested, and closes the circle.
-/
import FunctionPlot.Proofs.Parser.Outcome

namespace FunctionPlot

namespace Derivation

/-- Every level has a formula. -/
lemma nonempty_phrase (level : Level) : Nonempty (Derivation (.phrase level)) := by
  have hprimary : Nonempty (Derivation (.phrase .primary)) := ⟨number 0 ⟨⟨.number 0, [], 0⟩, rfl⟩⟩
  have hpower : Nonempty (Derivation (.phrase .power)) := hprimary.map bare
  have hunary : Nonempty (Derivation (.phrase .unary)) := hpower.map positive
  have hmul : Nonempty (Derivation (.phrase (.chain .multiplicative))) :=
    hunary.map fun d => chain d done
  have hadd : Nonempty (Derivation (.phrase (.chain .additive))) := hmul.map fun d => chain d done
  rcases level with (_ | _) | _ | _ | _ <;> assumption

/-- What steps make of the formula in front of them. -/
def behind {c : Chain} (left : Formula) (d : Derivation (.steps c)) : Formula := d.meaning left

/-- Steps make no formula less high. -/
lemma height_le_behind {c : Chain} (left : Formula) : ∀ d : Derivation (.steps c),
    left.height ≤ (behind left d).height
  | done => Nat.le_refl _
  | step op mem sign operand further => by
    have hnode := height_le_behind (.binary op left operand.meaning sign.val.position) further
    rw [Formula.height] at hnode
    have hbehind : behind left (step op mem sign operand further)
        = behind (.binary op left operand.meaning sign.val.position) further := rfl
    rw [hbehind]
    omega

end Derivation

/-- A chain can end in front of a token that neither continues its last operand nor is one of its
operators. -/
lemma Nonterminal.Stops.steps {c : Chain} {ts : List Token} (h : (phrase c.operand).Stops ts)
    (hne : ∀ t ∈ ts.head?, ∀ op ∈ c.operators, t.kind ≠ .operator op) : (steps c).Stops ts := by
  intro t ht hmem
  have hoperand := h t ht
  have hoperators := hne t ht
  revert hmem hoperand hoperators
  cases c <;> simp only [Chain.operand, Chain.operators, continuations, Chain.continuations] <;>
    grind

/-- Arguments can end in front of a token that neither continues the last of them nor is a
comma. -/
lemma Nonterminal.Stops.moreArguments {ts : List Token} (h : Nonterminal.expression.Stops ts)
    (hne : ∀ t ∈ ts.head?, t.kind ≠ .comma) : Nonterminal.moreArguments.Stops ts := by
  intro t ht hmem
  rcases List.mem_cons.mp hmem with hmem | hmem
  · exact hne t ht hmem
  · exact h t ht hmem

namespace Parsing

open FunctionPlot.Derivation Nonterminal Outcome

variable {a : Nat} {unary : Parsing Formula}

/-! ### Chains of operators that group to the left -/

/-- Behind an operator and its operand, a node is built and further steps are read behind the node.
A node that is too high cannot be saved by the further steps, which only add to its height. -/
lemma step_outcome {c : Chain} {op : Operator} (hop : op ∈ c.operators) {left : Formula}
    {next : Formula → Parsing Formula} {p r : Parser} (sign : Token.Of (.operator op))
    (right : Derivation (.phrase c.operand)) (reads : p.Reads (sign.val :: right.tokens) r)
    (depth : r.depth = p.depth) (hright : right.Ends r.tokens) (finite : FiniteNumbers right.tokens)
    (hnesting : right.nesting ≤ a)
    (hnext : ∀ node : Formula, node.height ≤ maxDepth →
      Outcome (.steps c) a Formula.height (behind node) r (next node r)) :
    Outcome (.steps c) a Formula.height (behind left) p
      ((build (.binary op left right.meaning sign.val.position) >>= next) r) := by
  rcases Nat.lt_or_ge maxDepth
    (Formula.binary op left right.meaning sign.val.position).height with hnode | hnode
  · rw [bind_error (build_eq_of_lt hnode)]
    refine .stopped .tooDeep reads (by omega) (by omega) ⟨rfl, rfl⟩
      ⟨step op hop sign right done, by simp [tokens]⟩ ?_
    intro d rest us hends heq hhead
    obtain ⟨further, rfl, -⟩ := eq_step_of_operand hop hends (hright.of_head? hhead) heq
    exact .inr (Nat.lt_of_lt_of_le hnode (height_le_behind _ further))
  · rw [bind_ok (build_eq_of_le hnode), ← bind_pure (next _)]
    refine bind_part (hnext _ hnode) reads (by omega) (by omega) ?_ ?_ ?_
    · exact fun d => ⟨step op hop sign right d, by simp [tokens]⟩
    · intro d rest us hends heq hhead
      obtain ⟨further, rfl, rfl⟩ := eq_step_of_operand hop hends (hright.of_head? hhead) heq
      refine ⟨further, rest, hends.further_step, rfl, ?_, by simp [tokens], Nat.le_refl _⟩
      simp only [nesting]
      omega
    · intro further s reads' depth' hfurther finite' hnesting' hheight'
      rw [reads'.tokens_eq] at hright
      refine .read (step op hop sign right further) ?_ (by omega) (.step hop sign hright hfurther)
        ?_ (Nat.max_le.mpr ⟨hnesting, hnesting'⟩) hheight'
      · simpa [tokens] using reads.trans reads'
      · rw [tokens, finiteNumbers_cons sign (by simp), finiteNumbers_append]
        exact ⟨finite, finite'⟩

lemma steps_outcome {c : Chain} {operand : Parsing Formula}
    (hoperand : ReadsPhrase c.operand a operand) (n : Nat) :
    ∀ (left : Formula) (p : Parser), p.Settled → p.remaining ≤ n →
      (phrase c.operand).Stops p.tokens → left.height ≤ maxDepth →
      Outcome (.steps c) a Formula.height (behind left) p
        (chainFrom c.operators operand n left p) := by
  -- the induction is on a bound of the number of tokens that are left: each step takes some
  induction n with
  | zero =>
    intro left p hp hn hstops hleft
    have htokens := Parser.tokens_eq_nil_of_remaining (Nat.le_zero.mp hn)
    rw [chainFrom]
    exact .read done (.refl hp) rfl (by rw [htokens]; exact done.ends_nil) finiteNumbers_nil
      (Nat.zero_le _) hleft
  | succ n ih =>
    intro left p hp hn hstops hleft
    rw [chainFrom]
    rcases exists_operator_or p c.operators with ⟨op, hop, sign, hsign⟩ | hne
    · refine bind_takes (takes_acceptOperator hop sign hsign) hsign (.refl hp) (Nat.le_refl _)
        (by omega) ?_ fun q reads depth => ?_
      · obtain ⟨operand⟩ := nonempty_phrase c.operand
        exact ⟨step op hop sign operand done, by simp [tokens]⟩
      refine bind_part (hoperand q reads.settled) reads (by omega) (by omega) ?_ ?_ ?_
      · exact fun d => ⟨step op hop sign d done, by simp [tokens]⟩
      · -- the operator tells that the derivation goes on with a step
        intro d rest us hends heq hhead
        obtain ⟨right, further, rfl, rfl⟩ := eq_step_of_sign hop hends heq
        refine ⟨right, _, hends.operand, rfl, ?_, by simp [tokens], ?_⟩
        · simp only [nesting]
          omega
        · have hnode := height_le_behind (.binary op left right.meaning sign.val.position) further
          rw [Formula.height] at hnode
          change _ ≤ (behind _ further).height
          omega
      · intro right r reads' depth' hright finite hnesting hheight
        have hlt := (reads.trans reads').remaining_lt
        exact step_outcome hop sign right (reads.trans reads') (by omega) hright finite hnesting
          fun node hnode => ih node r reads'.settled (by omega) hright.stops hnode
    · -- without an operator the chain is over
      rw [bind_ok (acceptOperator_eq_of_ne hne)]
      rw [← hp.head?_tokens] at hne
      exact .read done (.refl hp) rfl ⟨hstops.steps hne, by simp [Apart, tokens]⟩ finiteNumbers_nil
        (Nat.zero_le _) hleft

lemma reads_chain {c : Chain} {operand : Parsing Formula}
    (hoperand : ReadsPhrase c.operand a operand) :
    ReadsPhrase (.chain c) a (chain c.operators operand) := by
  intro p hp
  unfold chain
  refine bind_part (hoperand p hp) (.refl hp) (Nat.le_refl _) (by omega) ?_ ?_ ?_
  · exact fun d => ⟨.chain d done, by simp [tokens]⟩
  · intro d rest us hends heq hhead
    rw [List.nil_append] at heq
    cases d with
    | chain first further =>
      rw [tokens, List.append_assoc] at heq
      subst heq
      refine ⟨first, _, hends.first, rfl, ?_, by simp [tokens], height_le_behind _ further⟩
      simp only [nesting]
      omega
  · intro first q reads depth hfirst finite hnesting hheight
    change Outcome _ _ _ _ p (chainFrom c.operators operand q.remaining first.meaning q)
    rw [← bind_pure (chainFrom _ _ _ _)]
    refine bind_part (steps_outcome hoperand q.remaining first.meaning q reads.settled
      (Nat.le_refl _) hfirst.stops hheight) reads (by omega) (by omega) ?_ ?_ ?_
    · exact fun d => ⟨.chain first d, by simp [tokens]⟩
    · intro d rest us hends heq hhead
      obtain ⟨further, rfl, rfl⟩ := eq_chain_of_first hends (hfirst.of_head? hhead) heq
      refine ⟨further, rest, hends.further, rfl, ?_, by simp [tokens], Nat.le_refl _⟩
      simp only [nesting]
      omega
    · intro further r reads' depth' hfurther finite' hnesting' hheight'
      rw [reads'.tokens_eq] at hfirst
      exact .read (.chain first further) (reads.trans reads') (by omega) (.chain hfirst hfurther)
        (finiteNumbers_append.mpr ⟨finite, finite'⟩) (Nat.max_le.mpr ⟨hnesting, hnesting'⟩) hheight'

lemma reads_expression (hunary : ReadsPhrase .unary a unary) :
    ReadsPhrase (.chain .additive) a (expression unary) :=
  reads_chain (reads_chain hunary)

/-! ### Arguments -/

/-- Behind a comma and its argument further arguments are read. -/
lemma more_outcome {p r : Parser} (comma : Token.Of .comma) (argument : Derivation .expression)
    (reads : p.Reads (comma.val :: argument.tokens) r) (depth : r.depth = p.depth)
    (hargument : argument.Ends r.tokens) (finite : FiniteNumbers argument.tokens)
    (hnesting : argument.nesting ≤ a) (hheight : argument.meaning.height ≤ maxDepth)
    {next : Parsing (List Formula)}
    (hnext : Outcome .moreArguments a Formula.greatestHeight meaning r (next r)) :
    Outcome .moreArguments a Formula.greatestHeight meaning p
      ((next >>= fun rest => pure (argument.meaning :: rest)) r) := by
  refine bind_part hnext reads (by omega) (by omega) ?_ ?_ ?_
  · exact fun d => ⟨more comma argument d, by simp [tokens]⟩
  · intro d rest us hends heq hhead
    obtain ⟨further, rfl, rfl⟩ := eq_more_of_argument hends (hargument.of_head? hhead) heq
    refine ⟨further, rest, hends.further_more, rfl, ?_, by simp [tokens], Nat.le_max_right _ _⟩
    simp only [nesting]
    omega
  · intro further s reads' depth' hfurther finite' hnesting' hheight'
    rw [reads'.tokens_eq] at hargument
    refine .read (more comma argument further) ?_ (by omega) (.more comma hargument hfurther) ?_
      (Nat.max_le.mpr ⟨hnesting, hnesting'⟩) (Nat.max_le.mpr ⟨hheight, hheight'⟩)
    · simpa [tokens] using reads.trans reads'
    · rw [tokens, finiteNumbers_cons comma (by simp), finiteNumbers_append]
      exact ⟨finite, finite'⟩

lemma moreArguments_outcome {argument : Parsing Formula}
    (hargument : ReadsPhrase (.chain .additive) a argument) (n : Nat) :
    ∀ p : Parser, p.Settled → p.remaining ≤ n → Nonterminal.expression.Stops p.tokens →
      Outcome .moreArguments a Formula.greatestHeight meaning p (argumentsFrom argument n p) := by
  -- as for the steps of a chain, the induction is on a bound of the number of tokens
  induction n with
  | zero =>
    intro p hp hn hstops
    have htokens := Parser.tokens_eq_nil_of_remaining (Nat.le_zero.mp hn)
    exact .read noMore (.refl hp) rfl (by rw [htokens]; exact noMore.ends_nil) finiteNumbers_nil
      (Nat.zero_le _) (Nat.zero_le _)
  | succ n ih =>
    intro p hp hn hstops
    rw [argumentsFrom]
    by_cases hcomma : ∃ comma : Token.Of .comma, p.current? = some comma.val
    · obtain ⟨comma, hcomma⟩ := hcomma
      refine bind_takes (takes_accept comma hcomma) hcomma (.refl hp) (Nat.le_refl _) (by omega)
        ?_ fun q reads depth => ?_
      · obtain ⟨argument⟩ := nonempty_phrase (.chain .additive)
        exact ⟨more comma argument noMore, by simp [tokens]⟩
      rw [if_pos rfl]
      refine bind_part (hargument q reads.settled) reads (by omega) (by omega) ?_ ?_ ?_
      · exact fun d => ⟨more comma d noMore, by simp [tokens]⟩
      · intro d rest us hends heq hhead
        obtain ⟨first, further, rfl, rfl⟩ := eq_more_of_comma hends heq
        refine ⟨first, _, hends.argument_more, rfl, ?_, by simp [tokens], Nat.le_max_left _ _⟩
        simp only [nesting]
        omega
      · intro first r reads' depth' hfirst finite hnesting hheight
        have hlt := (reads.trans reads').remaining_lt
        exact more_outcome comma first (reads.trans reads') (by omega) hfirst finite hnesting
          hheight (ih r reads'.settled (by omega) hfirst.stops)
    · have hne : ∀ t ∈ p.current?, t.kind ≠ .comma := fun t ht hkind => hcomma ⟨⟨t, hkind⟩, ht⟩
      rw [bind_ok (accept_eq_of_ne hne)]
      rw [← hp.head?_tokens] at hne
      exact .read noMore (.refl hp) rfl ⟨hstops.moreArguments hne, by simp [Apart, tokens]⟩
        finiteNumbers_nil (Nat.zero_le _) (Nat.zero_le _)

lemma arguments_outcome {argument : Parsing Formula}
    (hargument : ReadsPhrase (.chain .additive) a argument) (p : Parser) (hp : p.Settled) :
    Outcome .arguments a Formula.greatestHeight meaning p (arguments argument p) := by
  unfold arguments
  refine bind_part (hargument p hp) (.refl hp) (Nat.le_refl _) (by omega) ?_ ?_ ?_
  · exact fun d => ⟨.arguments d noMore, by simp [tokens]⟩
  · intro d rest us hends heq hhead
    rw [List.nil_append] at heq
    cases d with
    | arguments first further =>
      rw [tokens, List.append_assoc] at heq
      subst heq
      refine ⟨first, _, hends.argument, rfl, ?_, by simp [tokens], Nat.le_max_left _ _⟩
      simp only [nesting]
      omega
  · intro first q reads depth hfirst finite hnesting hheight
    change Outcome _ _ _ _ p ((argumentsFrom argument q.remaining >>= _) q)
    refine bind_part (moreArguments_outcome hargument q.remaining q reads.settled (Nat.le_refl _)
      hfirst.stops) reads (by omega) (by omega) ?_ ?_ ?_
    · exact fun d => ⟨.arguments first d, by simp [tokens]⟩
    · intro d rest us hends heq hhead
      obtain ⟨further, rfl, rfl⟩ := eq_arguments_of_first hends (hfirst.of_head? hhead) heq
      refine ⟨further, rest, hends.further_arguments, rfl, ?_, by simp [tokens],
        Nat.le_max_right _ _⟩
      simp only [nesting]
      omega
    · intro further r reads' depth' hfurther finite' hnesting' hheight'
      rw [reads'.tokens_eq] at hfirst
      exact .read (.arguments first further) (reads.trans reads') (by omega)
        (.arguments hfirst hfurther) (finiteNumbers_append.mpr ⟨finite, finite'⟩)
        (Nat.max_le.mpr ⟨hnesting, hnesting'⟩) (Nat.max_le.mpr ⟨hheight, hheight'⟩)

/-! ### Primaries -/

/-- A token that is not of the kind that stands next in every derivation is refused. -/
lemma expect_outcome {α : Type} {G : Nonterminal} {height : α → Nat} {value : Derivation G → α}
    {p q : Parser} {ts : List Token} {kind : TokenKind} {description : Text} {f : Unit → Parsing α}
    (reads : p.Reads ts q) (depth_ge : p.depth ≤ q.depth) (depth_le : q.depth ≤ p.depth + a)
    (viable : ∀ t : Token.Of kind, G.Viable (ts ++ [t.val])) (viable' : G.Viable ts)
    (next : ∀ (d : Derivation G) (rest us : List Token), d.Ends rest → d.tokens ++ rest = ts ++ us →
      us.head? = q.tokens.head? → ∃ (t : Token.Of kind) (us' : List Token), us = t.val :: us')
    (taken : ∀ (t : Token.Of kind) (r : Parser), q.Reads [t.val] r → r.depth = q.depth →
      Outcome G a height value p (f () r)) :
    Outcome G a height value p ((expect kind description >>= f) q) := by
  by_cases hkind : ∃ t : Token.Of kind, q.current? = some t.val
  · obtain ⟨t, ht⟩ := hkind
    exact bind_takes (takes_expect t ht description) ht reads depth_ge depth_le (viable t) (taken t)
  · have hne : ∀ t ∈ q.current?, t.kind ≠ kind := fun t ht hk => hkind ⟨⟨t, hk⟩, ht⟩
    have hfail := expect_eq_of_ne hne description
    rw [bind_error hfail]
    refine refused reads depth_ge depth_le description viable' ?_
    intro d rest us hends heq hhead
    obtain ⟨t, us', rfl⟩ := next d rest us hends heq hhead
    rw [reads.settled.head?_tokens] at hhead
    exact hkind ⟨t, hhead.symm⟩

lemma callBehind_eq (unary : Parsing Formula) (name : Text) (position : Nat) (q : Parser) :
    callBehind unary name position q
      = (if q.current?.any (·.kind = .rightParen) then
          expect .rightParen "')'" >>= fun _ => build (.call name [] position)
        else arguments (expression unary) >>= fun args =>
          expect .rightParen "')'" >>= fun _ => build (.call name args position) :
        Parsing Formula) q := rfl

/-- A call without arguments is over at its closing parenthesis. -/
lemma emptyCall_outcome {p q : Parser} (t : Token.Of .identifier) (opening : Token.Of .leftParen)
    (closing : Token.Of .rightParen) (hclosing : q.current? = some closing.val)
    (reads : p.Reads [t.val, opening.val] q) (depth : q.depth = p.depth) :
    Outcome (.phrase .primary) a Formula.height meaning p
      ((expect .rightParen "')'" >>= fun _ => build (.call t.val.text [] t.val.position)) q) := by
  refine bind_takes (takes_expect closing hclosing _) hclosing reads (by omega) (by omega)
    ⟨emptyCall t opening closing, by simp [tokens]⟩ fun r reads' depth' => ?_
  refine built (emptyCall t opening closing) (reads.trans reads') (by omega)
    (ends_primary [t.val, opening.val] closing.val rfl (by simp [closing.property])) ?_
    (Nat.zero_le _)
  rw [tokens, finiteNumbers_cons t (by simp), finiteNumbers_cons opening (by simp),
    finiteNumbers_cons closing (by simp)]
  exact finiteNumbers_nil

/-- The arguments of a call are read behind its name and its opening parenthesis. -/
lemma call_outcome (hunary : ReadsPhrase .unary a unary) {p q : Parser} (t : Token.Of .identifier)
    (opening : Token.Of .leftParen) (reads : p.Reads [t.val, opening.val] q)
    (depth : q.depth = p.depth) :
    Outcome (.phrase .primary) a Formula.height meaning p
      (callBehind unary t.val.text t.val.position q) := by
  rw [callBehind_eq]
  by_cases hclosing : ∃ closing : Token.Of .rightParen, q.current? = some closing.val
  · obtain ⟨closing, hclosing⟩ := hclosing
    rw [if_pos (by rw [hclosing]; simp [closing.property])]
    exact emptyCall_outcome t opening closing hclosing reads depth
  · have hne : ∀ u ∈ q.current?, u.kind ≠ .rightParen := fun u hu hk => hclosing ⟨⟨u, hk⟩, hu⟩
    rw [if_neg (by simpa [Option.any_eq_true] using hne)]
    have viable (d : Derivation .arguments) (closing : Token.Of .rightParen) :
        (phrase .primary).Viable ([t.val, opening.val] ++ d.tokens ++ [closing.val]) :=
      ⟨call t opening d closing, by simp [tokens]⟩
    have viable' (d : Derivation .arguments) :
        (phrase .primary).Viable ([t.val, opening.val] ++ d.tokens) :=
      ⟨call t opening d ⟨⟨.rightParen, [], 0⟩, rfl⟩, by simp [tokens]⟩
    refine bind_part (arguments_outcome (reads_expression hunary) q reads.settled) reads (by omega)
      (by omega) viable' ?_ ?_
    · intro d rest us hends heq hhead
      -- with no closing parenthesis next, the call has arguments
      rcases eq_call_of_opening hends heq with ⟨closing, rfl, rfl⟩ | ⟨args, closing, rfl, rfl⟩
      · rw [reads.settled.head?_tokens] at hhead
        exact absurd ⟨closing, hhead.symm⟩ hclosing
      · refine ⟨args, _, ends_arguments_closing args closing, rfl, Nat.le_refl _,
          fun u hu => by simp [tokens, hu], ?_⟩
        change _ ≤ (Formula.call _ args.meaning _).height
        rw [Formula.height]
        omega
    · intro args r reads' depth' hargs finite hnesting hheight
      refine expect_outcome (reads.trans reads') (by omega) (by omega) (viable args) (viable' args)
        ?_ fun closing s reads'' depth'' => ?_
      · intro d rest us hends heq hhead
        rw [List.append_assoc] at heq
        obtain ⟨closing, rfl, rfl⟩ := eq_call_of_arguments hends (hargs.of_head? hhead) heq
        exact ⟨closing, rest, rfl⟩
      · refine built (call t opening args closing) ?_ (by omega)
          (ends_primary (t.val :: opening.val :: args.tokens) closing.val (by simp [tokens])
            (by simp [closing.property])) ?_ hnesting
        · simpa [tokens] using (reads.trans reads').trans reads''
        · rw [tokens, finiteNumbers_cons t (by simp), finiteNumbers_cons opening (by simp),
            finiteNumbers_append, finiteNumbers_cons closing (by simp)]
          exact ⟨finite, finiteNumbers_nil⟩

lemma primary_number {p : Parser} {value : Float} (t : Token.Of (.number value))
    (h : p.current? = some t.val) :
    primary unary p
      = (if value.isFinite then advance >>= fun _ => pure (.constant value t.val.position)
        else fail "finite number" (some ("Number out of range: " ++ t.val.text)) :
        Parsing Formula) p := by
  obtain ⟨⟨kind, text, position⟩, hkind⟩ := t
  obtain ⟨current?, last?, stream, depth, source⟩ := p
  cases hkind
  cases h
  rfl

lemma primary_opening {p : Parser} (opening : Token.Of .leftParen)
    (h : p.current? = some opening.val) :
    primary unary p
      = (advance >>= fun _ => expression unary >>= fun f => expect .rightParen "')'" >>= fun _ =>
        pure f : Parsing Formula) p := by
  obtain ⟨⟨kind, text, position⟩, hkind⟩ := opening
  obtain ⟨current?, last?, stream, depth, source⟩ := p
  cases hkind
  cases h
  rfl

lemma primary_name {p : Parser} (t : Token.Of .identifier) (h : p.current? = some t.val) :
    primary unary p
      = (advance >>= fun _ => accept .leftParen >>= fun opened =>
        if opened then callBehind unary t.val.text t.val.position
        else pure (.symbol t.val.text t.val.position) : Parsing Formula) p := by
  obtain ⟨⟨kind, text, position⟩, hkind⟩ := t
  obtain ⟨current?, last?, stream, depth, source⟩ := p
  cases hkind
  cases h
  rfl

lemma primary_eq_fail {p : Parser} (h : ∀ t ∈ p.current?, ¬ t.kind.StartsPrimary) :
    primary unary p = fail "expression" none p := by
  obtain ⟨current?, last?, stream, depth, source⟩ := p
  rcases current? with _ | ⟨kind, text, position⟩
  · rfl
  · have hkind : ¬ kind.StartsPrimary := h _ rfl
    cases kind with
    | number value => exact absurd trivial hkind
    | identifier => exact absurd trivial hkind
    | leftParen => exact absurd trivial hkind
    | operator op => rfl
    | rightParen => rfl
    | comma => rfl

/-- A primary in front of which a parser stands starts with its current token. -/
lemma current_of_primary {p : Parser} (hp : p.Settled) {d : Derivation (.phrase .primary)}
    {rest us : List Token} (heq : d.tokens ++ rest = us) (hhead : us.head? = p.tokens.head?) :
    ∃ t ∈ d.tokens, t.kind.StartsPrimary ∧ p.current? = some t := by
  obtain ⟨t, ts, hts, ht⟩ := exists_head_primary d
  refine ⟨t, by simp [hts], ht, ?_⟩
  rw [← hp.head?_tokens, ← hhead, ← heq, hts]
  rfl

lemma viable_nil (level : Level) : (phrase level).Viable [] :=
  (nonempty_phrase level).elim fun d => ⟨d, List.nil_prefix⟩

lemma number_outcome {p : Parser} (hp : p.Settled) {value : Float} (t : Token.Of (.number value))
    (h : p.current? = some t.val) :
    Outcome (.phrase .primary) a Formula.height meaning p (primary unary p) := by
  rw [primary_number t h]
  by_cases hfinite : value.isFinite
  · rw [if_pos hfinite]
    refine bind_takes (takes_advance h) h (.refl hp) (Nat.le_refl _) (by omega)
      ⟨number value t, by simp [tokens]⟩ fun q reads depth => ?_
    refine .read (number value t) reads depth
      (ends_primary [] t.val rfl (by simp [t.property])) ?_ (Nat.zero_le _)
      (by simp [meaning, Formula.height, maxDepth])
    intro u hu v hv
    obtain rfl : u = t.val := by simpa [tokens] using hu
    obtain rfl : value = v := TokenKind.number.inj (t.property.symm.trans hv)
    exact hfinite
  · rw [if_neg hfinite]
    refine .stopped .outOfRange (.refl hp) (Nat.le_refl _) (by omega) ⟨rfl, t, h, rfl⟩
      (viable_nil .primary) ?_
    -- every derivation with this token next has it among its tokens
    intro d rest us hends heq hhead hall
    obtain ⟨u, hu, -, hcurrent⟩ := current_of_primary hp heq hhead
    obtain rfl : _ = u := Option.some.inj (h.symm.trans hcurrent)
    exact hfinite (hall _ hu value t.property)

lemma group_outcome (hunary : ReadsPhrase .unary a unary) {p : Parser} (hp : p.Settled)
    (opening : Token.Of .leftParen) (h : p.current? = some opening.val) :
    Outcome (.phrase .primary) a Formula.height meaning p (primary unary p) := by
  rw [primary_opening opening h]
  have viable (d : Derivation .expression) (closing : Token.Of .rightParen) :
      (phrase .primary).Viable ([opening.val] ++ d.tokens ++ [closing.val]) :=
    ⟨group opening d closing, by simp [tokens]⟩
  have viable' (d : Derivation .expression) :
      (phrase .primary).Viable ([opening.val] ++ d.tokens) :=
    ⟨group opening d ⟨⟨.rightParen, [], 0⟩, rfl⟩, by simp [tokens]⟩
  refine bind_takes (takes_advance h) h (.refl hp) (Nat.le_refl _) (by omega) ?_
    fun q reads depth => ?_
  · obtain ⟨d⟩ := nonempty_phrase (.chain .additive)
    exact (viable' d).imp fun d' hd' => (List.prefix_append _ _).trans hd'
  refine bind_part (reads_expression hunary q reads.settled) reads (by omega) (by omega) viable'
    ?_ ?_
  · intro d rest us hends heq hhead
    obtain ⟨inner, closing, rfl, rfl⟩ := eq_group_of_opening heq
    exact ⟨inner, _, ends_closing inner closing, rfl, Nat.le_refl _,
      fun u hu => by simp [tokens, hu], Nat.le_refl _⟩
  · intro inner r reads' depth' hinner finite hnesting hheight
    refine expect_outcome (reads.trans reads') (by omega) (by omega) (viable inner) (viable' inner)
      ?_ fun closing s reads'' depth'' => ?_
    · intro d rest us hends heq hhead
      rw [List.append_assoc] at heq
      obtain ⟨closing, rfl, rfl⟩ := eq_group_of_inner (hinner.of_head? hhead) heq
      exact ⟨closing, rest, rfl⟩
    · refine .read (group opening inner closing) ?_ (by omega)
        (ends_primary (opening.val :: inner.tokens) closing.val rfl (by simp [closing.property])) ?_
        hnesting hheight
      · simpa [tokens] using (reads.trans reads').trans reads''
      · rw [tokens, finiteNumbers_cons opening (by simp), finiteNumbers_append,
          finiteNumbers_cons closing (by simp)]
        exact ⟨finite, finiteNumbers_nil⟩

lemma name_outcome (hunary : ReadsPhrase .unary a unary) {p : Parser} (hp : p.Settled)
    (t : Token.Of .identifier) (h : p.current? = some t.val) :
    Outcome (.phrase .primary) a Formula.height meaning p (primary unary p) := by
  rw [primary_name t h]
  refine bind_takes (takes_advance h) h (.refl hp) (Nat.le_refl _) (by omega)
    ⟨name t, by simp [tokens]⟩ fun q reads depth => ?_
  by_cases hopening : ∃ opening : Token.Of .leftParen, q.current? = some opening.val
  · obtain ⟨opening, hopening⟩ := hopening
    refine bind_takes (takes_accept opening hopening) hopening reads (by omega) (by omega)
      ⟨emptyCall t opening ⟨⟨.rightParen, [], 0⟩, rfl⟩, by simp [tokens]⟩ fun r reads' depth' => ?_
    rw [if_pos rfl]
    exact call_outcome hunary t opening (reads.trans reads') (by omega)
  · have hne : ∀ u ∈ q.current?, u.kind ≠ .leftParen := fun u hu hk => hopening ⟨⟨u, hk⟩, hu⟩
    rw [bind_ok (accept_eq_of_ne hne), if_neg (by simp)]
    rw [← reads.settled.head?_tokens] at hne
    refine .read (name t) reads depth
      ⟨by simp [Stops, continuations], fun _ _ u hu _ => hne u hu⟩ ?_ (Nat.zero_le _)
      (by simp [meaning, Formula.height, maxDepth])
    rw [tokens, finiteNumbers_cons t (by simp)]
    exact finiteNumbers_nil

lemma reads_primary (hunary : ReadsPhrase .unary a unary) :
    ReadsPhrase .primary a (primary unary) := by
  intro p hp
  by_cases hstarts : ∀ t ∈ p.current?, ¬ t.kind.StartsPrimary
  · rw [primary_eq_fail hstarts]
    refine refused (.refl hp) (Nat.le_refl _) (by omega) _ (viable_nil .primary) ?_
    intro d rest us hends heq hhead
    obtain ⟨t, -, hkind, ht⟩ := current_of_primary hp heq hhead
    exact hstarts t ht hkind
  · simp only [not_forall, not_not] at hstarts
    obtain ⟨t, ht, hkind⟩ := hstarts
    cases h : t.kind with
    | number value => exact number_outcome hp ⟨t, h⟩ ht
    | identifier => exact name_outcome hunary hp ⟨t, h⟩ ht
    | leftParen => exact group_outcome hunary hp ⟨t, h⟩ ht
    | _ => exact absurd hkind (by simp [h, TokenKind.StartsPrimary])

/-! ### Powers and negations -/

lemma reads_power (hunary : ReadsPhrase .unary a unary) : ReadsPhrase .power a (power unary) := by
  intro p hp
  unfold power
  refine bind_part (reads_primary hunary p hp) (.refl hp) (Nat.le_refl _) (by omega) ?_ ?_ ?_
  · exact fun d => ⟨bare d, by simp [tokens]⟩
  · intro d rest us hends heq hhead
    rw [List.nil_append] at heq
    subst heq
    cases d with
    | bare base =>
      exact ⟨base, rest, hends.base, rfl, Nat.le_refl _, List.Subset.refl _, Nat.le_refl _⟩
    | raised base sign exponent =>
      refine ⟨base, _, ends_caret base sign, by simp [tokens]; rfl, ?_, by simp [tokens], ?_⟩
      · simp only [nesting]
        omega
      · rw [meaning, Formula.height]
        omega
  intro base q reads depth hbase finite hnesting hheight
  rcases exists_operator_or q [.pow] with ⟨op, hop, sign, hsign⟩ | hne
  · obtain rfl : op = .pow := by simpa using hop
    refine bind_takes (takes_acceptOperator hop sign hsign) hsign reads (by omega) (by omega) ?_
      fun r reads' depth' => ?_
    · obtain ⟨exponent⟩ := nonempty_phrase .unary
      exact ⟨raised base sign exponent, by simp [tokens]⟩
    refine bind_part (hunary r reads'.settled) (reads.trans reads') (by omega) (by omega) ?_ ?_ ?_
    · exact fun d => ⟨raised base sign d, by simp [tokens]⟩
    · intro d rest us hends heq hhead
      rw [List.append_assoc] at heq
      obtain ⟨exponent, rfl, rfl⟩ := eq_raised_of_sign hends heq
      refine ⟨exponent, rest, hends.exponent, rfl, ?_, by simp [tokens], ?_⟩
      · simp only [nesting]
        omega
      · rw [meaning, Formula.height]
        omega
    · intro exponent s reads'' depth'' hexponent finite' hnesting' hheight'
      refine built (raised base sign exponent) ?_ (by omega) (.raised base sign hexponent) ?_
        (Nat.max_le.mpr ⟨hnesting, hnesting'⟩)
      · simpa [tokens] using (reads.trans reads').trans reads''
      · rw [tokens, finiteNumbers_append, finiteNumbers_cons sign (by simp)]
        exact ⟨finite, finite'⟩
  · -- a base ends in front of everything but a caret
    rw [bind_ok (acceptOperator_eq_of_ne hne)]
    rw [← reads.settled.head?_tokens] at hne
    refine .read (bare base) reads depth ⟨?_, hbase.apart⟩ finite hnesting hheight
    intro t ht hmem
    exact hne t ht .pow (by simp) (by simpa [continuations] using hmem)

/-- Ends a nesting. -/
def leave {α : Type} (x : α) : Parsing α := fun p => .ok x { p with depth := p.depth - 1 }

lemma nested_bind {α β : Type} (x : Parsing β) (f : β → Parsing α) (p : Parser) :
    nested (x >>= f) p = (x >>= fun y => f y >>= leave) { p with depth := p.depth + 1 } := by
  have hnested : nested (x >>= f) p = ((x >>= f) >>= leave) { p with depth := p.depth + 1 } := rfl
  rw [hnested, bind_assoc]

variable {p q : Parser}

/-- Behind a minus in a nesting stands what is negated. -/
lemma negation_outcome (hunary : ReadsPhrase .unary a unary) (sign : Token.Of (.operator .sub))
    (reads : p.Reads [sign.val] q) (depth : q.depth = p.depth + 1) :
    Outcome (.phrase .unary) (a + 1) Formula.height meaning p
      ((unary >>= fun operand => build (.negation operand sign.val.position) >>= leave) q) := by
  refine bind_part (hunary q reads.settled) reads (by omega) (by omega) ?_ ?_ ?_
  · exact fun d => ⟨negation sign d, by simp [tokens]⟩
  · intro d rest us hends heq hhead
    obtain ⟨operand, rfl, rfl⟩ := eq_negation_of_sign heq
    refine ⟨operand, rest, hends.negated, rfl, ?_, by simp [tokens], ?_⟩
    · simp only [nesting]
      omega
    · rw [meaning, Formula.height]
      omega
  · intro operand r reads' depth' hoperand finite hnesting hheight
    have hreads : p.Reads (negation sign operand).tokens r := reads.trans reads'
    refine bind_build (negation sign operand) hreads (by omega) (by omega)
      (.negation sign hoperand) fun hheight' => ?_
    refine .read (negation sign operand) (hreads.withDepth _) ?_ (.negation sign hoperand) ?_ ?_
      hheight'
    · change r.depth - 1 = p.depth
      omega
    · rwa [tokens, finiteNumbers_cons sign (by simp)]
    · simp only [nesting]
      omega

/-- A nesting without a minus is that of a power. -/
lemma positive_outcome (hunary : ReadsPhrase .unary a unary) (reads : p.Reads [] q)
    (depth : q.depth = p.depth + 1) (hne : ∀ t ∈ q.current?, t.kind ≠ .operator .sub) :
    Outcome (.phrase .unary) (a + 1) Formula.height meaning p ((power unary >>= leave) q) := by
  refine bind_part (reads_power hunary q reads.settled) reads (by omega) (by omega) ?_ ?_ ?_
  · exact fun d => ⟨positive d, by simp [tokens]⟩
  · intro d rest us hends heq hhead
    rw [List.nil_append] at heq
    subst heq
    cases d with
    | negation sign operand =>
      rw [reads.settled.head?_tokens] at hhead
      exact absurd sign.property (hne sign.val hhead.symm)
    | positive power =>
      refine ⟨power, rest, hends.power, rfl, ?_, List.Subset.refl _, Nat.le_refl _⟩
      simp only [nesting]
      omega
  · intro power r reads' depth' hpower finite hnesting hheight
    refine .read (positive power) ((reads.trans reads').withDepth _) ?_
      ⟨hpower.stops, hpower.apart⟩ finite ?_ hheight
    · change r.depth - 1 = p.depth
      omega
    · simp only [nesting]
      omega

/-- Negations and powers are read as long as they are not nested too deeply. -/
theorem reads_unary (a : Nat) : ReadsPhrase .unary a (Parsing.unary a) := by
  induction a with
  | zero =>
    intro p hp
    refine .stopped .tooDeep (.refl hp) (Nat.le_refl _) (by omega) ⟨rfl, rfl⟩
      (viable_nil .unary) ?_
    intro d rest us hends heq hhead
    -- every derivation from `unary` is nested at least once
    refine .inl ?_
    cases d <;> simp only [nesting] <;> omega
  | succ a hunary =>
    intro p hp
    rw [Parsing.unary, nested_bind]
    -- one more nesting is entered, and from there `unary a` may go as deep as the whole phrase
    obtain ⟨e, he⟩ : ∃ e : Parser, e = { p with depth := p.depth + 1 } := ⟨_, rfl⟩
    have hreads : p.Reads [] e := he ▸ (Parser.Reads.refl hp).withDepth _
    have hdepth : e.depth = p.depth + 1 := by rw [he]
    rw [← he]
    rcases exists_operator_or e [.sub] with ⟨op, hop, sign, hsign⟩ | hne
    · obtain rfl : op = .sub := by simpa using hop
      refine bind_takes (takes_acceptOperator hop sign hsign) hsign hreads (by omega) (by omega)
        ?_ fun q reads depth => ?_
      · obtain ⟨operand⟩ := nonempty_phrase .unary
        exact ⟨negation sign operand, by simp [tokens]⟩
      · rw [bind_assoc]
        exact negation_outcome hunary sign (hreads.trans reads) (depth.trans hdepth)
    · rw [bind_ok (acceptOperator_eq_of_ne hne)]
      exact positive_outcome hunary hreads hdepth fun t ht => hne t ht .sub (by simp)

end Parsing

end FunctionPlot
