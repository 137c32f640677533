/-
# Tokens without the parentheses that group

The opening parenthesis of a call stands behind a name, and every other one only groups;
`ungrouped` leaves the latter out of a list of tokens, with those that close them.

What the other tokens say is determined by the formula that the tokens stand for
(`Derivation.contents_ungrouped`), whatever parentheses group its parts.  This goes by induction
over derivations.  Inside a derivation the parentheses match, so that behind it the same ones are
open as in front of it (`Says`).
-/
import FunctionPlot.Proofs.Formula.Normal
import FunctionPlot.Proofs.Formula.Tokenization
import FunctionPlot.Proofs.Parser.Verdict

namespace FunctionPlot

/-- A token has a text of its kind. -/
def Token.Spelled (t : Token) : Prop := t.text ∈ t.kind.language

/-- What a token says: its kind and its text.  Numbers have no text here, as the same number can be
written in many ways. -/
abbrev Content := TokenKind × Text

/-- What a token says. -/
def Token.content (t : Token) : Content :=
  (t.kind, match t.kind with
    | .number _ => []
    | _ => t.text)

/-- Leaves out the parentheses that only group.  It is given of each open parenthesis whether it is
that of a call, the innermost first, and whether there is a name in front of the tokens. -/
def ungroupedFrom (calls : List Bool) (named : Bool) : List Token → List Token
  | [] => []
  | t :: rest =>
    match t.kind with
    | .leftParen =>
      if named then t :: ungroupedFrom (true :: calls) false rest
      else ungroupedFrom (false :: calls) false rest
    | .rightParen =>
      if calls.head? = some false then ungroupedFrom calls.tail false rest
      else t :: ungroupedFrom calls.tail false rest
    | .identifier => t :: ungroupedFrom calls true rest
    | _ => t :: ungroupedFrom calls false rest

/-- Some tokens without the parentheses that only group. -/
def ungrouped (ts : List Token) : List Token := ungroupedFrom [] false ts

namespace Formula

mutual

/-- What the tokens of a formula say that do not group. -/
def contents : Formula → List Content
  | constant value _ => [(.number value, [])]
  | symbol name _ => [(.identifier, name)]
  | negation operand _ => (.operator .sub, [Operator.sub.sign]) :: operand.contents
  | binary op left right _ => left.contents ++ (.operator op, [op.sign]) :: right.contents
  | call function arguments _ =>
    (.identifier, function) :: (.leftParen, [unit '('])
      :: ((moreContents arguments).tail ++ [(.rightParen, [unit ')'])])

/-- What the tokens of some formulas say, each with a comma in front of it. -/
def moreContents : List Formula → List Content
  | [] => []
  | f :: rest => (.comma, [unit ',']) :: (f.contents ++ moreContents rest)

end

lemma moreContents_eq_flatMap (formulas : List Formula) :
    moreContents formulas
      = formulas.flatMap fun f => (TokenKind.comma, [unit ',']) :: f.contents := by
  induction formulas with
  | nil => rfl
  | cons f rest ih => rw [moreContents, List.flatMap_cons, ih, List.cons_append]

lemma contents_stripped (f : Formula) : f.stripped.contents = f.contents := by
  induction f with
  | constant value position => rfl
  | symbol name position => rfl
  | negation operand position ih => rw [stripped, contents, contents, ih]
  | binary op left right position ihleft ihright =>
    rw [stripped, contents, contents, ihleft, ihright]
  | call function arguments position ih =>
    have hmore : moreContents (arguments.map stripped) = moreContents arguments := by
      rw [moreContents_eq_flatMap, moreContents_eq_flatMap, List.flatMap_map]
      exact List.flatMap_congr fun a ha => by rw [ih a ha]
    rw [stripped, contents, contents, strippedAll_eq_map, hmore]

lemma contents_eq_of_stripped {f g : Formula} (h : f.stripped = g.stripped) :
    f.contents = g.contents := by
  rw [← f.contents_stripped, h, g.contents_stripped]

end Formula

namespace Token

variable {kind : TokenKind}

lemma content_number {value : Float} (t : Token.Of (.number value)) :
    t.val.content = (.number value, []) := by
  simp [content, t.property]

lemma content_of_ne (t : Token.Of kind) (h : ∀ value, kind ≠ .number value) :
    t.val.content = (kind, t.val.text) := by
  obtain ⟨t, rfl⟩ := t
  rw [content]
  split
  · exact absurd ‹_› (h _)
  · rfl

/-- What a token says that is of a kind with a single text. -/
lemma content_sign {u : CodeUnit} (t : Token.Of kind) (h : t.val.Spelled)
    (hnumber : ∀ value, kind ≠ .number value) (hlanguage : kind.language = {[u]}) :
    t.val.content = (kind, [u]) := by
  rw [Spelled, t.property, hlanguage] at h
  have htext : t.val.text = [u] := h
  rw [content_of_ne t hnumber, htext]

end Token

/-- Tokens that say something besides grouping and leave the same parentheses open.  The argument
`named` is whether there is a name in front of them. -/
def Says (named : Bool) (ts : List Token) (c : List Content) : Prop :=
  ∀ calls, ∃ named', ∀ rest, (ungroupedFrom calls named (ts ++ rest)).map Token.content
    = c ++ (ungroupedFrom calls named' rest).map Token.content

namespace Says

variable {named : Bool} {ts ts' : List Token} {c c' : List Content}

lemma nil : Says named [] [] := fun _ => ⟨named, fun _ => rfl⟩

lemma append (h : Says named ts c) (h' : ∀ named', Says named' ts' c') :
    Says named (ts ++ ts') (c ++ c') := by
  intro calls
  obtain ⟨named', hfirst⟩ := h calls
  obtain ⟨named'', hsecond⟩ := h' named' calls
  refine ⟨named'', fun rest => ?_⟩
  rw [List.append_assoc, hfirst, hsecond, List.append_assoc]

/-- A token that is no parenthesis and no name. -/
lemma plain {t : Token} (h : Says false ts c) (hleft : t.kind ≠ .leftParen)
    (hright : t.kind ≠ .rightParen) (hname : t.kind ≠ .identifier) :
    Says named (t :: ts) (t.content :: c) := by
  intro calls
  obtain ⟨named', hrest⟩ := h calls
  refine ⟨named', fun rest => ?_⟩
  have hstep : ungroupedFrom calls named (t :: (ts ++ rest))
      = t :: ungroupedFrom calls false (ts ++ rest) := by
    rw [ungroupedFrom]
    split
    · exact absurd ‹_› hleft
    · exact absurd ‹_› hright
    · exact absurd ‹_› hname
    · rfl
  rw [List.cons_append, hstep, List.map_cons, hrest, List.cons_append]

lemma number {value : Float} (t : Token.Of (.number value)) :
    Says named [t.val] [(.number value, [])] := by
  rw [← Token.content_number t]
  exact nil.plain (by simp [t.property]) (by simp [t.property]) (by simp [t.property])

lemma operator {op : Operator} (t : Token.Of (.operator op)) (ht : t.val.Spelled)
    (h : Says false ts c) : Says named (t.val :: ts) ((.operator op, [op.sign]) :: c) := by
  rw [← Token.content_sign t ht (by simp) rfl]
  exact h.plain (by simp [t.property]) (by simp [t.property]) (by simp [t.property])

lemma comma (t : Token.Of .comma) (ht : t.val.Spelled) (h : Says false ts c) :
    Says named (t.val :: ts) ((.comma, [unit ',']) :: c) := by
  rw [← Token.content_sign t ht (by simp) rfl]
  exact h.plain (by simp [t.property]) (by simp [t.property]) (by simp [t.property])

lemma name (t : Token.Of .identifier) : Says named [t.val] [(.identifier, t.val.text)] := by
  rw [← Token.content_of_ne t (by simp)]
  refine fun calls => ⟨true, fun rest => ?_⟩
  simp only [List.singleton_append, ungroupedFrom, t.property, List.map_cons]

/-- The parentheses of a call are left in. -/
lemma call (t : Token.Of .identifier) (opening : Token.Of .leftParen)
    (closing : Token.Of .rightParen) (hopening : opening.val.Spelled)
    (hclosing : closing.val.Spelled) (h : Says false ts c) :
    Says named (t.val :: opening.val :: (ts ++ [closing.val]))
      ((.identifier, t.val.text) :: (.leftParen, [unit '('])
        :: (c ++ [(.rightParen, [unit ')'])])) := by
  rw [← Token.content_of_ne t (by simp), ← Token.content_sign opening hopening (by simp) rfl,
    ← Token.content_sign closing hclosing (by simp) rfl]
  intro calls
  obtain ⟨named', hinner⟩ := h (true :: calls)
  refine ⟨false, fun rest => ?_⟩
  simp only [List.cons_append, List.append_assoc, ungroupedFrom, t.property, opening.property,
    if_true, List.map_cons, hinner]
  simp [closing.property]

/-- Parentheses that only group are left out. -/
lemma group (opening : Token.Of .leftParen) (closing : Token.Of .rightParen)
    (h : Says false ts c) : Says false (opening.val :: (ts ++ [closing.val])) c := by
  intro calls
  obtain ⟨named', hinner⟩ := h (false :: calls)
  refine ⟨false, fun rest => ?_⟩
  simp only [List.cons_append, List.append_assoc, ungroupedFrom, opening.property,
    Bool.false_eq_true, if_false, hinner]
  simp [closing.property]

end Says

/-- What the tokens of a derivation from a nonterminal say about its meaning. -/
def Nonterminal.Says : (G : Nonterminal) → List Token → G.Meaning → Prop
  | phrase _, ts, f => FunctionPlot.Says false ts (Formula.contents f)
  | steps _, ts, extend => ∃ c, (∀ named, FunctionPlot.Says named ts c) ∧
      ∀ left : Formula, (extend left).contents = left.contents ++ c
  | arguments, ts, fs => FunctionPlot.Says false ts (Formula.moreContents fs).tail
  | moreArguments, ts, fs => ∀ named, FunctionPlot.Says named ts (Formula.moreContents fs)

namespace Derivation

/-- The tokens of a derivation say what its meaning says, besides the parentheses that group. -/
theorem says_meaning {G : Nonterminal} (d : Derivation G) (h : ∀ t ∈ d.tokens, t.Spelled) :
    G.Says d.tokens d.meaning := by
  induction d with
  | chain first rest ihfirst ihrest =>
    obtain ⟨hfirst, hrest⟩ := List.forall_mem_append.mp h
    obtain ⟨c, hc, hmeaning⟩ := ihrest hrest
    show Says false (first.tokens ++ rest.tokens) (Formula.contents (rest.meaning first.meaning))
    rw [hmeaning]
    exact (ihfirst hfirst).append hc
  | done => exact ⟨[], fun _ => .nil, fun left => (List.append_nil _).symm⟩
  | step op mem sign operand rest ihoperand ihrest =>
    obtain ⟨hsign, hmore⟩ := List.forall_mem_cons.mp h
    obtain ⟨hoperand, hrest⟩ := List.forall_mem_append.mp hmore
    obtain ⟨c, hc, hmeaning⟩ := ihrest hrest
    refine ⟨(.operator op, [op.sign]) :: (Formula.contents operand.meaning ++ c),
      fun _ => .operator sign hsign ((ihoperand hoperand).append hc), fun left => ?_⟩
    rw [meaning, hmeaning, Formula.contents, List.append_assoc, List.cons_append]
  | negation sign operand ih =>
    obtain ⟨hsign, hoperand⟩ := List.forall_mem_cons.mp h
    exact .operator sign hsign (ih hoperand)
  | positive power ih => exact ih h
  | bare base ih => exact ih h
  | raised base sign exponent ihbase ihexponent =>
    obtain ⟨hbase, hmore⟩ := List.forall_mem_append.mp h
    obtain ⟨hsign, hexponent⟩ := List.forall_mem_cons.mp hmore
    exact (ihbase hbase).append fun _ => .operator sign hsign (ihexponent hexponent)
  | number value t => exact .number t
  | name t => exact .name t
  | emptyCall t opening closing =>
    obtain ⟨-, hmore⟩ := List.forall_mem_cons.mp h
    obtain ⟨hopening, hclosing⟩ := List.forall_mem_cons.mp hmore
    exact Says.nil.call t opening closing hopening (hclosing _ (List.mem_singleton.mpr rfl))
  | call t opening args closing ih =>
    obtain ⟨-, hmore⟩ := List.forall_mem_cons.mp h
    obtain ⟨hopening, hmore⟩ := List.forall_mem_cons.mp hmore
    obtain ⟨hargs, hclosing⟩ := List.forall_mem_append.mp hmore
    exact (ih hargs).call t opening closing hopening (hclosing _ (List.mem_singleton.mpr rfl))
  | group opening inner closing ih =>
    obtain ⟨-, hmore⟩ := List.forall_mem_cons.mp h
    exact (ih (List.forall_mem_append.mp hmore).1).group opening closing
  | arguments first rest ihfirst ihrest =>
    obtain ⟨hfirst, hrest⟩ := List.forall_mem_append.mp h
    exact (ihfirst hfirst).append (ihrest hrest)
  | noMore => exact fun _ => .nil
  | more comma argument rest ihargument ihrest =>
    obtain ⟨hcomma, hmore⟩ := List.forall_mem_cons.mp h
    obtain ⟨hargument, hrest⟩ := List.forall_mem_append.mp hmore
    exact fun _ => .comma comma hcomma ((ihargument hargument).append (ihrest hrest))

/-- Without the parentheses that only group, the tokens of a derivation say what its meaning
says. -/
theorem contents_ungrouped {level : Level} (d : Derivation (.phrase level))
    (h : ∀ t ∈ d.tokens, t.Spelled) :
    (ungrouped d.tokens).map Token.content = Formula.contents d.meaning := by
  obtain ⟨named', hsays⟩ := d.says_meaning h []
  have hrest := hsays []
  rw [List.append_nil] at hrest
  rw [ungrouped, hrest, ungroupedFrom, List.map_nil, List.append_nil]

end Derivation

/-- The tokens of a text have texts of their kinds. -/
lemma TokenStream.spelled_ofText (source : Text) :
    ∀ t ∈ (TokenStream.ofText source).tokens, t.Spelled :=
  fun t ht => ((scanned_ofText source).stands t ht).longest.mem

/-- Without the parentheses that only group, the tokens of a text say what the formula says that is
parsed from it. -/
theorem Formula.contents_ungrouped {f : Formula} {source : Text} (h : ofText source = .ok f) :
    (ungrouped (TokenStream.ofText source).tokens).map Token.content = f.contents := by
  obtain ⟨d, htokens, -, rfl, -⟩ := exists_derivation h
  rw [← htokens]
  exact d.contents_ungrouped fun t ht => TokenStream.spelled_ofText source t (htokens ▸ ht)

end FunctionPlot
