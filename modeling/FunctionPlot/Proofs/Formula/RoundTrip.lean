/-
# Printing and parsing

What is parsed is readable: its numbers are finite and have no minus sign, and its names are
identifiers.  The text of a printable formula is parsed to what the formula is read as, if this is
within the limit on heights; so the limit on nestings never shows, whatever parentheses the text
has.
-/
import FunctionPlot.Proofs.Formula.Printed

namespace FunctionPlot

open TokenStream

/-- What derivations of readable tokens stand for: readable formulas, and steps that lead from
readable formulas to readable formulas. -/
def Nonterminal.Readable : (G : Nonterminal) → G.Meaning → Prop
  | phrase _, f => Formula.Readable f
  | steps _, extend => ∀ left : Formula, left.Readable → (extend left).Readable
  | arguments, formulas => ∀ f ∈ formulas, Formula.Readable f
  | moreArguments, formulas => ∀ f ∈ formulas, Formula.Readable f

/-- A token as a formula can have it. -/
def Token.Readable (t : Token) : Prop :=
  t.Lexical ∧ ∀ value, t.kind = .number value → value.isFinite

lemma Formula.readable_call {name : Text} {arguments : List Formula} (position : Nat)
    (hname : IsIdentifier name) (h : ∀ a ∈ arguments, a.Readable) :
    (call name arguments position).Readable :=
  ⟨hname, (allOver_iff arguments).mpr h⟩

namespace Derivation

lemma readable_meaning {G : Nonterminal} (d : Derivation G) (h : ∀ t ∈ d.tokens, t.Readable) :
    G.Readable d.meaning := by
  induction d with
  | chain first rest ihfirst ihrest =>
    -- the first operand is handed to the steps
    obtain ⟨hfirst, hrest⟩ := List.forall_mem_append.mp h
    exact ihrest hrest first.meaning (ihfirst hfirst)
  | done => exact fun left hleft => hleft
  | step op mem sign operand rest ihoperand ihrest =>
    intro left hleft
    obtain ⟨hoperand, hrest⟩ := List.forall_mem_append.mp (List.forall_mem_cons.mp h).2
    exact ihrest hrest _ ⟨hleft, ihoperand hoperand⟩
  | negation sign operand ih => exact ih (List.forall_mem_cons.mp h).2
  | positive power ih => exact ih h
  | bare base ih => exact ih h
  | raised base sign exponent ihbase ihexponent =>
    obtain ⟨hbase, hexponent⟩ := List.forall_mem_append.mp h
    exact ⟨ihbase hbase, ihexponent (List.forall_mem_cons.mp hexponent).2⟩
  | number value t =>
    obtain ⟨hlexical, hfinite⟩ := h t.val (List.mem_singleton.mpr rfl)
    exact ⟨hfinite value t.property, hlexical.not_isNegative value t.property⟩
  | name t => exact (h t.val (List.mem_singleton.mpr rfl)).1.isIdentifier t.property
  | emptyCall t opening closing =>
    exact Formula.readable_call _ ((h t.val List.mem_cons_self).1.isIdentifier t.property) (by simp)
  | call t opening args closing ih =>
    have hargs := (List.forall_mem_cons.mp (List.forall_mem_cons.mp h).2).2
    exact Formula.readable_call _ ((h t.val List.mem_cons_self).1.isIdentifier t.property)
      (ih (List.forall_mem_append.mp hargs).1)
  | group opening inner closing ih =>
    exact ih (List.forall_mem_append.mp (List.forall_mem_cons.mp h).2).1
  | arguments first rest ihfirst ihrest =>
    obtain ⟨hfirst, hrest⟩ := List.forall_mem_append.mp h
    exact List.forall_mem_cons.mpr ⟨ihfirst hfirst, ihrest hrest⟩
  | noMore => exact fun f hf => absurd hf List.not_mem_nil
  | more comma argument rest ihargument ihrest =>
    obtain ⟨hargument, hrest⟩ := List.forall_mem_append.mp (List.forall_mem_cons.mp h).2
    exact List.forall_mem_cons.mpr ⟨ihargument hargument, ihrest hrest⟩

end Derivation

namespace Formula

variable {f g : Formula} {source : Text}

/-- The tokens of a text that is parsed are readable. -/
lemma readable_tokens (h : ofText source = .ok f) :
    ∀ t ∈ (TokenStream.ofText source).tokens, t.Readable := by
  obtain ⟨d, htokens, -, -, hfinite, -⟩ := exists_derivation h
  exact fun t ht => ⟨lexical_ofText source t ht, hfinite t (htokens ▸ ht)⟩

/-- Every formula that is parsed from a text is readable and within the limit on heights. -/
lemma readable_of_ofText (h : ofText source = .ok f) : f.Readable ∧ f.height ≤ maxDepth := by
  obtain ⟨d, htokens, -, rfl, -, -, hheight⟩ := exists_derivation h
  exact ⟨d.readable_meaning fun t ht => readable_tokens h t (htokens ▸ ht), hheight⟩

/-- The text of a printable formula has a derivation that is nested at most as deeply as the formula
is high. -/
lemma exists_derivation_toText (h : f.Printable) : ∃ d : Derivation .expression,
    TokenStream.ofText f.toText = .ofList d.tokens ∧ d.meaning.stripped = f.norm.stripped ∧
      d.nesting ≤ f.norm.height ∧ FiniteNumbers d.tokens := by
  obtain ⟨d, hd⟩ := (readsBack_of_printable h).expression f.toText 0 [] Delimits.nil
  refine ⟨d, ?_, hd.meaning, hd.nesting, hd.finite⟩
  have hscan := hd.scan
  rw [List.append_nil] at hscan
  rw [TokenStream.ofText, hscan, ofRest, prepend, ended, List.append_nil, ofList]

/-- The text of a printable formula is parsed to what the formula is read as, unless this is too
high. -/
lemma ofText_toText_cases (h : f.Printable) :
    (f.norm.height ≤ maxDepth ∧ ∃ g, ofText f.toText = .ok g ∧ g.stripped = f.norm.stripped) ∨
    (maxDepth < f.norm.height ∧ ∃ e, ofText f.toText = .error e) := by
  obtain ⟨d, htext, hmeaning, hnesting, hfinite⟩ := exists_derivation_toText h
  have hheight : d.meaning.height = f.norm.height := height_eq_of_stripped hmeaning
  have hparse : ofText f.toText = ofTokens d.tokens f.toText := by
    rw [ofText, htext, ofTokens]
  rcases ofTokens_tokens d hfinite f.toText with ⟨-, hle, hok⟩ | ⟨hlimit, found, position, herror⟩
  · rw [hheight] at hle
    exact .inl ⟨hle, d.meaning, hparse.trans hok, hmeaning⟩
  · -- a nesting beyond the limit means a height beyond it
    refine .inr ⟨?_, _, hparse.trans herror⟩
    omega

/-- The text of a formula that is parsed is parsed to the same formula, up to positions. -/
lemma exists_ofText_toText (h : ofText source = .ok f) :
    ∃ g, ofText f.toText = .ok g ∧ g.stripped = f.stripped := by
  obtain ⟨hreadable, hheight⟩ := readable_of_ofText h
  have hnorm := norm_eq_self hreadable
  rcases ofText_toText_cases hreadable.printable with ⟨-, g, hg, hstripped⟩ | ⟨hlt, -⟩
  · rw [hnorm] at hstripped
    exact ⟨g, hg, hstripped⟩
  · rw [hnorm] at hlt
    exact absurd hheight (Nat.not_le.mpr hlt)

/-- Printing and parsing are inverse to each other up to positions.  The text of a printable formula
is parsed iff what the formula is read as is within the limit on heights, and then to just that; the
parentheses of the text never nest more deeply than this height.  A formula that is parsed is read
as it is. -/
theorem ofText_toText (h : f.Printable) :
    ((∃ g, ofText f.toText = .ok g) ↔ f.norm.height ≤ maxDepth) ∧
    (∀ g, ofText f.toText = .ok g → g.stripped = f.norm.stripped) ∧
    (∃ d : Derivation .expression, d.tokens = (TokenStream.ofText f.toText).tokens ∧
      d.nesting ≤ f.norm.height) ∧
    (∀ source g, ofText source = .ok g → g.norm = g) := by
  refine ⟨⟨?_, fun hheight => ?_⟩, fun g hg => ?_, ?_, fun source g hg => ?_⟩
  · rintro ⟨g, hg⟩
    rcases ofText_toText_cases h with ⟨hheight, -⟩ | ⟨-, e, he⟩
    · exact hheight
    · rw [hg] at he
      cases he
  · rcases ofText_toText_cases h with ⟨-, g, hg, -⟩ | ⟨hlt, -⟩
    · exact ⟨g, hg⟩
    · omega
  · rcases ofText_toText_cases h with ⟨-, g', hg', hstripped⟩ | ⟨-, e, he⟩
    · rw [hg] at hg'
      cases hg'
      exact hstripped
    · rw [hg] at he
      cases he
  · obtain ⟨d, htext, -, hnesting, -⟩ := exists_derivation_toText h
    refine ⟨d, ?_, hnesting⟩
    rw [htext]
    rfl
  · exact norm_eq_self (readable_of_ofText hg).1

theorem ofText_toText_negative_base :
    (binary .pow (constant (-2) 0) (symbol "x" 0) 0).Printable ∧
    toText (binary .pow (constant (-2) 0) (symbol "x" 0) 0) = "(-2)^x" ∧
    ∃ g, ofText "(-2)^x" = .ok g ∧
      g.stripped = .binary .pow (.negation (.constant 2 0) 0) (.symbol "x" 0) 0 := by
  have hfinite : (-2 : Float).isFinite := by decide +kernel
  have hname : IsIdentifier "x" := ⟨unit 'x', [], rfl, by decide, by simp⟩
  have hprintable : (binary .pow (constant (-2) 0) (symbol "x" 0) 0).Printable := ⟨hfinite, hname⟩
  have htext : toText (binary .pow (constant (-2) 0) (symbol "x" 0) 0) = "(-2)^x" := by
    decide +kernel
  have hnorm : norm (binary .pow (constant (-2) 0) (symbol "x" 0) 0)
      = .binary .pow (.negation (.constant 2 0) 0) (.symbol "x" 0) 0 := by
    have hlt : (-2 : Float) < 0 := by decide +kernel
    have hneg : -(-2 : Float) = 2 := by decide +kernel
    rw [norm, norm, norm, if_pos hlt, hneg]
  obtain ⟨hiff, hnormed, -, -⟩ := ofText_toText hprintable
  rw [hnorm] at hiff hnormed
  obtain ⟨g, hg⟩ := hiff.mpr (by decide)
  have hstripped := hnormed g hg
  rw [htext] at hg
  exact ⟨hprintable, htext, g, hg, hstripped⟩

end Formula

end FunctionPlot
