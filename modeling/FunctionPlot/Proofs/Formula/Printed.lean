/-
# The text of a formula read back

The text of a formula is built from the texts of its parts as a derivation is built from the
derivations of its parts, and `ReadAs` says what text a derivation has, wherever it stands.

Parentheses nest further `unary`s.  A text that is not a negation is nested less deeply than its
formula is high, and only such texts are put into parentheses below a `unary`; so the parentheses
never make the nesting greater than the height (`ReadAs.placed`).
-/
import FunctionPlot.Proofs.Formula.Lexing
import FunctionPlot.Proofs.Parser.Verdict

namespace FunctionPlot

open TokenStream

/-- The level of the grammar at which the texts of a strength are read. -/
def Strength.level : Strength → Level
  | additive => .chain .additive
  | multiplicative => .chain .multiplicative
  | unary => .unary
  | power => .power
  | atom => .primary

/-- By how much the nesting of a text of some strength stays below the height of its formula. -/
def Strength.slack : Strength → Nat
  | unary => 0
  | _ => 1

/-- A derivation of a text that stands in a source at some position, in front of the text `rest`. -/
structure Derivation.Stands {level : Level} (d : Derivation (.phrase level)) (source : Text)
    (position : Nat) (t rest : Text) (f : Formula) (n : Nat) : Prop where
  scan : ofRest source position (t ++ rest)
    = (ofRest source (position + t.length) rest).prepend d.tokens
  meaning : d.meaning.stripped = f.stripped
  nesting : d.nesting ≤ n
  finite : FiniteNumbers d.tokens

/-- A text is read at a level as a formula, up to positions, and at most `n` `unary`s are nested in
it. -/
def ReadAs (level : Level) (f : Formula) (n : Nat) (t : Text) : Prop :=
  ∀ (source : Text) (position : Nat) (rest : Text), Delimits rest →
    ∃ d : Derivation (.phrase level), d.Stands source position t rest f n

namespace Derivation

/-- A derivation of a chain can be continued by one more step. -/
lemma exists_step_behind {c : Chain} {op : Operator} (mem : op ∈ c.operators)
    (sign : Token.Of (.operator op)) (operand : Derivation (.phrase c.operand)) :
    ∀ d : Derivation (.steps c), ∃ d' : Derivation (.steps c),
      d'.tokens = d.tokens ++ sign.val :: operand.tokens ∧
      (∀ left, d'.meaning left = .binary op (d.meaning left) operand.meaning sign.val.position) ∧
      d'.nesting = max d.nesting operand.nesting
  | done => ⟨step op mem sign operand done, by simp [tokens], fun _ => rfl, by simp [nesting]⟩
  | step op' mem' sign' operand' further => by
    obtain ⟨further', htokens, hmeaning, hnesting⟩ := exists_step_behind mem sign operand further
    refine ⟨step op' mem' sign' operand' further', ?_, fun left => hmeaning _, ?_⟩
    · rw [tokens, tokens, htokens, List.cons_append, List.append_assoc]
    · rw [nesting, nesting, hnesting, Nat.max_assoc]

lemma exists_chain_behind {c : Chain} {op : Operator} (mem : op ∈ c.operators)
    (sign : Token.Of (.operator op)) (d : Derivation (.phrase (.chain c)))
    (operand : Derivation (.phrase c.operand)) : ∃ d' : Derivation (.phrase (.chain c)),
      d'.tokens = d.tokens ++ sign.val :: operand.tokens ∧
      d'.meaning = .binary op d.meaning operand.meaning sign.val.position ∧
      d'.nesting = max d.nesting operand.nesting := by
  cases d with
  | chain first further =>
    obtain ⟨further', htokens, hmeaning, hnesting⟩ := exists_step_behind mem sign operand further
    refine ⟨chain first further', ?_, hmeaning _, ?_⟩
    · rw [tokens, tokens, htokens, List.append_assoc]
    · rw [nesting, nesting, hnesting, Nat.max_assoc]

end Derivation

namespace ReadAs

variable {f g : Formula} {n m : Nat} {s t : Text} {position : Nat}

lemma mono {level : Level} (h : ReadAs level f n t) (hle : n ≤ m) : ReadAs level f m t := by
  intro source position rest hrest
  obtain ⟨d, hd⟩ := h source position rest hrest
  exact ⟨d, hd.scan, hd.meaning, hd.nesting.trans hle, hd.finite⟩

lemma bare (h : ReadAs .primary f n t) : ReadAs .power f n t := by
  intro source position rest hrest
  obtain ⟨d, hd⟩ := h source position rest hrest
  exact ⟨.bare d, hd.scan, hd.meaning, hd.nesting, hd.finite⟩

lemma positive (h : ReadAs .power f n t) : ReadAs .unary f (n + 1) t := by
  intro source position rest hrest
  obtain ⟨d, hd⟩ := h source position rest hrest
  refine ⟨.positive d, hd.scan, hd.meaning, ?_, hd.finite⟩
  have hnesting := hd.nesting
  rw [Derivation.nesting]
  omega

lemma chain (c : Chain) (h : ReadAs c.operand f n t) : ReadAs (.chain c) f n t := by
  intro source position rest hrest
  obtain ⟨d, hd⟩ := h source position rest hrest
  have htokens : (Derivation.chain d .done).tokens = d.tokens := List.append_nil _
  refine ⟨.chain d .done, ?_, hd.meaning, ?_, ?_⟩
  · rw [htokens]
    exact hd.scan
  · rw [Derivation.nesting, Derivation.nesting, Nat.max_zero]
    exact hd.nesting
  · rw [htokens]
    exact hd.finite

lemma product (h : ReadAs .unary f n t) : ReadAs (.chain .multiplicative) f n t :=
  chain .multiplicative h

lemma sum (h : ReadAs (.chain .multiplicative) f n t) : ReadAs (.chain .additive) f n t :=
  chain .additive h

lemma number (x : Numeral) {value : Float} (hvalue : Number.ofNumeral x.text = value)
    (hfinite : value.isFinite) : ReadAs .primary (.constant value position) 0 x.text := by
  intro source position rest hrest
  refine ⟨.number value ⟨⟨.number value, x.text, position⟩, rfl⟩, ?_, rfl, Nat.le_refl _, ?_⟩
  · rw [ofRest_numeral x hrest, hvalue, cons_eq_prepend]
    rfl
  · intro t ht value' hvalue'
    obtain rfl := List.mem_singleton.mp ht
    cases hvalue'
    exact hfinite

lemma symbol {name : Text} (h : IsIdentifier name) :
    ReadAs .primary (.symbol name position) 0 name := by
  intro source position rest hrest
  refine ⟨.name ⟨⟨.identifier, name, position⟩, rfl⟩, ?_, rfl, Nat.le_refl _, ?_⟩
  · rw [ofRest_identifier h hrest, cons_eq_prepend]
    rfl
  · simp [Derivation.tokens, FiniteNumbers]

lemma delimits_rightParen (rest : Text) : Delimits (unit ')' :: rest) :=
  .cons (by decide) (by decide)

lemma group (h : ReadAs (.chain .additive) f n t) :
    ReadAs .primary f n (unit '(' :: t ++ [unit ')']) := by
  intro source position rest _
  obtain ⟨d, hd⟩ := h source (position + 1) (unit ')' :: rest) (delimits_rightParen rest)
  refine ⟨.group ⟨⟨.leftParen, [unit '('], position⟩, rfl⟩ d
    ⟨⟨.rightParen, [unit ')'], position + 1 + t.length⟩, rfl⟩, ?_, ?_, ?_, ?_⟩
  · have hlength : position + (unit '(' :: t ++ [unit ')']).length
        = position + 1 + t.length + 1 := by
      simp
      omega
    rw [hlength, List.append_assoc, List.cons_append, List.singleton_append, ofRest_leftParen,
      hd.scan, ofRest_rightParen]
    simp [Derivation.tokens, prepend, cons]
  · rw [Derivation.meaning]
    exact hd.meaning
  · rw [Derivation.nesting]
    exact hd.nesting
  · rw [Derivation.tokens, finiteNumbers_cons _ (by simp), finiteNumbers_append]
    exact ⟨hd.finite, by simp [FiniteNumbers]⟩

lemma negation (h : ReadAs .unary f n t) :
    ReadAs .unary (.negation f position) (n + 1) (unit '-' :: t) := by
  intro source start rest hrest
  obtain ⟨d, hd⟩ := h source (start + 1) rest hrest
  refine ⟨.negation ⟨⟨.operator .sub, [unit '-'], start⟩, rfl⟩ d, ?_, ?_, ?_, ?_⟩
  · have hlength : start + (unit '-' :: t).length = start + 1 + t.length := by
      rw [List.length_cons]
      omega
    have hsign : ofRest source start (unit '-' :: (t ++ rest))
        = cons ⟨.operator .sub, [unit '-'], start⟩ (ofRest source (start + 1) (t ++ rest)) :=
      ofRest_operator .sub
    rw [hlength, List.cons_append, hsign, hd.scan]
    rfl
  · rw [Derivation.meaning, Formula.stripped, Formula.stripped, hd.meaning]
  · have hnesting := hd.nesting
    rw [Derivation.nesting]
    omega
  · rw [Derivation.tokens, finiteNumbers_cons _ (by simp)]
    exact hd.finite

/-- The sign of an operator is found behind its left side, with or without blanks around it. -/
lemma exists_ofRest_spaced (op : Operator) (source rest : Text) (start : Nat) :
    ∃ sign : Token.Of (.operator op), ofRest source start (op.spaced ++ rest)
      = cons sign.val (ofRest source (start + op.spaced.length) rest) := by
  by_cases hpow : op = .pow
  · subst hpow
    exact ⟨⟨⟨.operator .pow, [unit '^'], start⟩, rfl⟩, ofRest_operator .pow⟩
  · have hspaced : op.spaced = [unit ' ', op.sign, unit ' '] := by
      cases op <;> first | rfl | exact absurd rfl hpow
    refine ⟨⟨⟨.operator op, [op.sign], start + 1⟩, rfl⟩, ?_⟩
    rw [hspaced, List.cons_append, List.cons_append, List.cons_append, List.nil_append,
      ofRest_blank (by decide), ofRest_operator, ofRest_blank (by decide)]
    rfl

lemma delimits_spaced (op : Operator) (rest : Text) : Delimits (op.spaced ++ rest) := by
  cases op <;> exact .cons (by decide) (by decide)

/-- The texts on both sides of an operator are read as two parts of a phrase, and its sign between
them. -/
lemma exists_sides {l l' : Level} (op : Operator) (hleft : ReadAs l f n s)
    (hright : ReadAs l' g m t) (source : Text) (start : Nat) {rest : Text} (hrest : Delimits rest) :
    ∃ (left : Derivation (.phrase l)) (sign : Token.Of (.operator op))
      (right : Derivation (.phrase l')),
      ofRest source start (s ++ op.spaced ++ t ++ rest)
        = (ofRest source (start + (s ++ op.spaced ++ t).length) rest).prepend
            (left.tokens ++ sign.val :: right.tokens) ∧
      left.meaning.stripped = f.stripped ∧ right.meaning.stripped = g.stripped ∧
      left.nesting ≤ n ∧ right.nesting ≤ m ∧
      FiniteNumbers (left.tokens ++ sign.val :: right.tokens) := by
  obtain ⟨left, hl⟩ := hleft source start _ (delimits_spaced op (t ++ rest))
  obtain ⟨sign, hsign⟩ := exists_ofRest_spaced op source (t ++ rest) (start + s.length)
  obtain ⟨right, hr⟩ := hright source (start + s.length + op.spaced.length) rest hrest
  refine ⟨left, sign, right, ?_, hl.meaning, hr.meaning, hl.nesting, hr.nesting, ?_⟩
  · have hlength : start + (s ++ op.spaced ++ t).length
        = start + s.length + op.spaced.length + t.length := by
      rw [List.length_append, List.length_append]
      omega
    rw [hlength, List.append_assoc, List.append_assoc, hl.scan, hsign, hr.scan, prepend_append,
      prepend_cons]
  · rw [finiteNumbers_append, finiteNumbers_cons sign (by simp)]
    exact ⟨hl.finite, hr.finite⟩

lemma binary {c : Chain} {op : Operator} (mem : op ∈ c.operators) (hleft : ReadAs (.chain c) f n s)
    (hright : ReadAs c.operand g m t) :
    ReadAs (.chain c) (.binary op f g position) (max n m) (s ++ op.spaced ++ t) := by
  intro source start rest hrest
  obtain ⟨left, sign, right, hscan, hf, hg, hn, hm, hfinite⟩ :=
    exists_sides op hleft hright source start hrest
  obtain ⟨d, htokens, hmeaning, hnesting⟩ := left.exists_chain_behind mem sign right
  refine ⟨d, ?_, ?_, ?_, ?_⟩
  · rw [htokens]
    exact hscan
  · rw [hmeaning, Formula.stripped, Formula.stripped, hf, hg]
  · rw [hnesting]
    omega
  · rw [htokens]
    exact hfinite

lemma power (hleft : ReadAs .primary f n s) (hright : ReadAs .unary g m t) :
    ReadAs .power (.binary .pow f g position) (max n m) (s ++ Operator.pow.spaced ++ t) := by
  intro source start rest hrest
  obtain ⟨left, sign, right, hscan, hf, hg, hn, hm, hfinite⟩ :=
    exists_sides .pow hleft hright source start hrest
  refine ⟨.raised left sign right, hscan, ?_, ?_, hfinite⟩
  · rw [Derivation.meaning, Formula.stripped, Formula.stripped, hf, hg]
  · rw [Derivation.nesting]
    omega

/-! ### Calls -/

lemma joined_cons (separator t : Text) (ts : List Text) :
    Text.joined separator (t :: ts) = t ++ ts.flatMap (separator ++ ·) := by
  induction ts generalizing t with
  | nil => simp [Text.joined]
  | cons u ts ih =>
    rw [Text.joined_cons_cons, ih, List.flatMap_cons, List.append_assoc]

/-- The texts of the arguments behind the first one. -/
def moreText (fs : List Formula) : Text := (fs.map Formula.toText).flatMap (", " ++ ·)

lemma delimits_moreText (fs : List Formula) {rest : Text} (hrest : Delimits rest) :
    Delimits (moreText fs ++ rest) := by
  cases fs with
  | nil => exact hrest
  | cons f fs => exact .cons (by decide) (by decide)

lemma exists_more {fs : List Formula}
    (h : ∀ f ∈ fs, ReadAs (.chain .additive) f.norm n f.toText) (source : Text) (start : Nat)
    {rest : Text} (hrest : Delimits rest) : ∃ d : Derivation .moreArguments,
      ofRest source start (moreText fs ++ rest)
        = (ofRest source (start + (moreText fs).length) rest).prepend d.tokens ∧
      d.meaning.map Formula.stripped = (fs.map Formula.norm).map Formula.stripped ∧
      d.nesting ≤ n ∧ FiniteNumbers d.tokens := by
  induction fs generalizing start with
  | nil => exact ⟨.noMore, rfl, rfl, Nat.zero_le _, finiteNumbers_nil⟩
  | cons f fs ih =>
    obtain ⟨hf, hfs⟩ := List.forall_mem_cons.mp h
    obtain ⟨argument, ha⟩ := hf source (start + 2) _ (delimits_moreText fs hrest)
    obtain ⟨more, hscan, hmeaning, hnesting, hfinite⟩ := ih hfs (start + 2 + f.toText.length)
    have hseparator : moreText (f :: fs) = unit ',' :: unit ' ' :: (f.toText ++ moreText fs) := rfl
    refine ⟨.more ⟨⟨.comma, [unit ','], start⟩, rfl⟩ argument more, ?_, ?_, ?_, ?_⟩
    · have hlength : start + (moreText (f :: fs)).length
          = start + 2 + f.toText.length + (moreText fs).length := by
        rw [hseparator, List.length_cons, List.length_cons, List.length_append]
        omega
      rw [hlength, hseparator, List.cons_append, List.cons_append, List.append_assoc, ofRest_comma,
        ofRest_blank (by decide), ha.scan, hscan, Derivation.tokens, prepend_cons, prepend_append]
    · rw [Derivation.meaning, List.map_cons, List.map_cons, List.map_cons, hmeaning, ha.meaning]
    · have hargument := ha.nesting
      rw [Derivation.nesting]
      omega
    · rw [Derivation.tokens, finiteNumbers_cons _ (by simp), finiteNumbers_append]
      exact ⟨ha.finite, hfinite⟩

lemma exists_arguments {f : Formula} {fs : List Formula}
    (h : ∀ a ∈ f :: fs, ReadAs (.chain .additive) a.norm n a.toText) (source : Text) (start : Nat)
    {rest : Text} (hrest : Delimits rest) : ∃ d : Derivation .arguments,
      ofRest source start (Text.joined ", " ((f :: fs).map Formula.toText) ++ rest)
        = (ofRest source (start + (Text.joined ", " ((f :: fs).map Formula.toText)).length)
            rest).prepend d.tokens ∧
      d.meaning.map Formula.stripped = ((f :: fs).map Formula.norm).map Formula.stripped ∧
      d.nesting ≤ n ∧ FiniteNumbers d.tokens := by
  obtain ⟨hf, hfs⟩ := List.forall_mem_cons.mp h
  have htext : Text.joined ", " ((f :: fs).map Formula.toText) = f.toText ++ moreText fs := by
    rw [List.map_cons, joined_cons]
    rfl
  obtain ⟨first, ha⟩ := hf source start _ (delimits_moreText fs hrest)
  obtain ⟨more, hmore, hmeaning, hnesting, hfinite⟩ :=
    exists_more hfs source (start + f.toText.length) hrest
  refine ⟨.arguments first more, ?_, ?_, ?_, ?_⟩
  · rw [htext, List.length_append, List.append_assoc, ha.scan, hmore, Derivation.tokens,
      prepend_append, Nat.add_assoc]
  · rw [Derivation.meaning, List.map_cons, List.map_cons, List.map_cons, ha.meaning, hmeaning]
  · have hfirst := ha.nesting
    rw [Derivation.nesting]
    omega
  · rw [Derivation.tokens, finiteNumbers_append]
    exact ⟨ha.finite, hfinite⟩

lemma delimits_leftParen (rest : Text) : Delimits (unit '(' :: rest) :=
  .cons (by decide) (by decide)

lemma ofRest_call {name : Text} (hname : IsIdentifier name) (source inner rest : Text)
    (start : Nat) : ofRest source start (name ++ unit '(' :: inner ++ [unit ')'] ++ rest)
      = cons ⟨.identifier, name, start⟩ (cons ⟨.leftParen, [unit '('], start + name.length⟩
          (ofRest source (start + name.length + 1) (inner ++ unit ')' :: rest))) := by
  rw [List.append_assoc, List.append_assoc, List.cons_append,
    ofRest_identifier hname (delimits_leftParen _), ofRest_leftParen]
  rfl

lemma call {name : Text} (hname : IsIdentifier name) {fs : List Formula}
    (h : ∀ f ∈ fs, ReadAs (.chain .additive) f.norm n f.toText) :
    ReadAs .primary (.call name (fs.map Formula.norm) position) n
      (name ++ unit '(' :: Text.joined ", " (fs.map Formula.toText) ++ [unit ')']) := by
  intro source start rest _
  have hlength (inner : Text) : start + (name ++ unit '(' :: inner ++ [unit ')']).length
      = start + name.length + 1 + inner.length + 1 := by
    simp only [List.length_append, List.length_cons, List.length_nil]
    omega
  cases fs with
  | nil =>
    refine ⟨.emptyCall ⟨⟨.identifier, name, start⟩, rfl⟩
      ⟨⟨.leftParen, [unit '('], start + name.length⟩, rfl⟩
      ⟨⟨.rightParen, [unit ')'], start + name.length + 1⟩, rfl⟩, ?_, rfl, Nat.zero_le _, ?_⟩
    · rw [ofRest_call hname, hlength]
      exact congrArg (cons _) (congrArg (cons _) ofRest_rightParen)
    · simp [Derivation.tokens, FiniteNumbers]
  | cons f fs =>
    obtain ⟨args, hargs, hmeaning, hnesting, hfinite⟩ :=
      exists_arguments h source (start + name.length + 1) (delimits_rightParen rest)
    let place := start + name.length + 1 + (Text.joined ", " ((f :: fs).map Formula.toText)).length
    refine ⟨.call ⟨⟨.identifier, name, start⟩, rfl⟩
      ⟨⟨.leftParen, [unit '('], start + name.length⟩, rfl⟩ args
      ⟨⟨.rightParen, [unit ')'], place⟩, rfl⟩, ?_, ?_, ?_, ?_⟩
    · rw [ofRest_call hname, hlength, hargs, ofRest_rightParen]
      simp [Derivation.tokens, prepend, cons, place]
    · rw [Derivation.meaning, Formula.stripped, Formula.stripped, Formula.strippedAll_eq_map,
        Formula.strippedAll_eq_map, hmeaning]
    · rw [Derivation.nesting]
      exact hnesting
    · rw [Derivation.tokens, finiteNumbers_cons _ (by simp), finiteNumbers_cons _ (by simp),
        finiteNumbers_append]
      exact ⟨hfinite, by simp [FiniteNumbers]⟩

/-! ### Parentheses -/

lemma of_unary (h : ReadAs .unary f n t) {needed : Strength} (hneeded : ¬ .unary < needed) :
    ReadAs needed.level f n t := by
  cases needed with
  | additive => exact h.product.sum
  | multiplicative => exact h.product
  | unary => exact h
  | power | atom => exact absurd (by decide) hneeded

/-- A text can stand where a weaker one is needed.  This nests a negation no more deeply, and any
other text by one more `unary` at most. -/
lemma lift {actual : Strength} {k : Nat} (h : ReadAs actual.level f n t) (hn : n + actual.slack ≤ k)
    (needed : Strength) (hneeded : ¬ actual < needed) : ReadAs needed.level f k t := by
  cases actual with
  | additive =>
    cases needed with
    | additive => exact h.mono (Nat.le_of_add_right_le hn)
    | multiplicative | unary | power | atom => exact absurd (by decide) hneeded
  | multiplicative =>
    have hk := h.mono (Nat.le_of_add_right_le hn)
    cases needed with
    | additive => exact hk.sum
    | multiplicative => exact hk
    | unary | power | atom => exact absurd (by decide) hneeded
  | unary => exact (h.mono hn).of_unary hneeded
  | power =>
    have hk := h.positive.mono hn
    cases needed with
    | power => exact h.mono (Nat.le_of_add_right_le hn)
    | additive | multiplicative | unary => exact hk.of_unary (by decide)
    | atom => exact absurd (by decide) hneeded
  | atom =>
    have hk := h.bare.positive.mono hn
    cases needed with
    | power => exact h.bare.mono (Nat.le_of_add_right_le hn)
    | additive | multiplicative | unary => exact hk.of_unary (by decide)
    | atom => exact h.mono (Nat.le_of_add_right_le hn)

/-- Between parentheses a text can stand anywhere.  Below a `unary` only sums and products need
them, and these are nested less deeply than they are high. -/
lemma wrap {actual : Strength} {k : Nat} (h : ReadAs actual.level f n t) (hn : n + actual.slack ≤ k)
    (needed : Strength) (hneeded : actual < needed) :
    ReadAs needed.level f k (unit '(' :: t ++ [unit ')']) := by
  -- a negation may use up the whole height in its parentheses, as no `unary` is around them
  have hany : ReadAs .primary f k (unit '(' :: t ++ [unit ')']) :=
    (h.lift hn .additive (by cases actual <;> decide)).group
  cases needed with
  | atom => exact hany
  | power => exact hany.bare
  | additive => exact absurd hneeded (by cases actual <;> decide)
  | multiplicative | unary =>
    -- here one more `unary` is around the parentheses
    cases actual with
    | additive =>
      have hatom : ReadAs Strength.atom.level f n _ := group h
      exact hatom.lift hn _ (by decide)
    | multiplicative =>
      have hatom : ReadAs Strength.atom.level f n _ := group h.sum
      exact hatom.lift hn _ (by decide)
    | unary | power | atom => exact absurd hneeded (by decide)

/-- A part of a formula is nested at most as deeply as it is high, with parentheses or without. -/
lemma placed {actual : Strength} {k : Nat} (h : ReadAs actual.level f n t)
    (hn : n + actual.slack ≤ k) (needed : Strength) :
    ReadAs needed.level f k (Formula.placed needed actual t) := by
  rw [Formula.placed]
  split
  · rename_i hweak
    exact h.wrap hn needed hweak
  · rename_i hstrong
    exact h.lift hn needed hstrong

end ReadAs

namespace Formula

/-- The text of a formula is read at its level, nested at most as deeply as the formula is high, and
less deeply unless it is a negation. -/
def ReadsBack (f : Formula) : Prop :=
  ∃ n, n + f.strength.slack ≤ f.norm.height ∧ ReadAs f.strength.level f.norm n f.toText

variable {f : Formula}

lemma ReadsBack.placed (h : f.ReadsBack) (needed : Strength) :
    ReadAs needed.level f.norm f.norm.height (Formula.placed needed f.strength f.toText) := by
  obtain ⟨n, hn, hread⟩ := h
  exact hread.placed hn needed

lemma ReadsBack.expression (h : f.ReadsBack) :
    ReadAs (.chain .additive) f.norm f.norm.height f.toText := by
  obtain ⟨n, hn, hread⟩ := h
  exact hread.lift hn .additive (by cases f.strength <;> decide)

lemma readsBack_constant {value : Float} (position : Nat) (hfinite : value.isFinite) :
    (constant value position).ReadsBack := by
  by_cases hsign : Number.isNegative value
  · by_cases hlt : value < 0
    · -- the minus sign is read as a negation of the number without it
      obtain ⟨-, hfinite', hsign', hwritten⟩ := Number.written_of_lt hfinite hlt
      obtain ⟨x, htext, hvalue⟩ := Number.exists_numeral_written hfinite' hsign'
      have hread : ReadAs .primary (constant (-value) position) 0 x.text :=
        .number x hvalue hfinite'
      refine ⟨2, ?_, ?_⟩
      · simp [norm, hlt, strength, hsign, Strength.slack, height]
      · rw [norm, if_pos hlt, strength, if_pos hsign, toText, hwritten, htext]
        exact hread.bare.positive.negation
    · -- negative zero is written without its sign
      have hzero := Number.eq_zero_of_isNegative hfinite hsign hlt
      obtain ⟨x, htext, hvalue⟩ : ∃ x : Numeral,
          [unit '0'] = x.text ∧ Number.ofNumeral x.text = 0 :=
        ⟨⟨[unit '0'], none, none, by simp, .replicate 1, by simp⟩, rfl, rfl⟩
      have hread : ReadAs .primary (constant 0 position) 0 x.text := .number x hvalue rfl
      refine ⟨1, ?_, ?_⟩
      · simp [norm, hlt, hzero, strength, hsign, Strength.slack, height]
      · rw [norm, if_neg hlt, if_pos hzero, strength, if_pos hsign, toText,
          Number.written_of_eq_zero hzero, htext]
        exact hread.bare.positive
  · have hnorm : norm (constant value position) = constant value position :=
      norm_eq_self ⟨hfinite, hsign⟩
    obtain ⟨x, htext, hvalue⟩ := Number.exists_numeral_written hfinite hsign
    refine ⟨0, ?_, ?_⟩
    · rw [hnorm, strength, if_neg hsign]
      exact Nat.le_refl _
    · rw [hnorm, strength, if_neg hsign, toText, htext]
      exact .number x hvalue hfinite

lemma readsBack_binary (op : Operator) {left right : Formula} (position : Nat)
    (hleft : left.ReadsBack) (hright : right.ReadsBack) :
    (binary op left right position).ReadsBack := by
  have hl := hleft.placed op.leftStrength
  have hr := hright.placed op.rightStrength
  refine ⟨max left.norm.height right.norm.height, ?_, ?_⟩
  · have hslack : op.strength.slack = 1 := by cases op <;> rfl
    rw [strength, norm, height, hslack, Nat.add_comm]
  · rw [norm, toText, strength]
    cases op with
    | add | sub => exact .binary (c := .additive) (by decide) hl hr
    | mul | div => exact .binary (c := .multiplicative) (by decide) hl hr
    | pow => exact .power hl hr

lemma readsBack_call {name : Text} {arguments : List Formula} (position : Nat)
    (hname : IsIdentifier name) (h : ∀ a ∈ arguments, a.ReadsBack) :
    (call name arguments position).ReadsBack := by
  have harguments : ∀ a ∈ arguments,
      ReadAs (.chain .additive) a.norm (greatestHeight (arguments.map norm)) a.toText :=
    fun a ha => (h a ha).expression.mono (height_le_greatestHeight (List.mem_map_of_mem ha))
  refine ⟨greatestHeight (arguments.map norm), ?_, ?_⟩
  · rw [norm, norms_eq_map, height]
    change greatestHeight (arguments.map norm) + 1 ≤ _
    omega
  · rw [norm, norms_eq_map, toText, toTexts_eq_map]
    exact .call hname harguments

/-- The text of every printable formula is read back. -/
lemma readsBack_of_printable (h : f.Printable) : f.ReadsBack := by
  induction f with
  | constant value position => exact readsBack_constant position h
  | symbol name position => exact ⟨0, Nat.le_refl _, .symbol h⟩
  | negation operand position ih =>
    refine ⟨operand.norm.height + 1, ?_, ?_⟩
    · rw [norm, height, strength, Strength.slack]
      omega
    · rw [norm, toText]
      exact ((ih h).placed .unary).negation
  | binary op left right position ihleft ihright =>
    exact readsBack_binary op position (ihleft h.1) (ihright h.2)
  | call function arguments position ih =>
    have harguments := (allOver_iff arguments).mp h.2
    exact readsBack_call position h.1 fun a ha => ih a ha (harguments a ha)

end Formula

end FunctionPlot
