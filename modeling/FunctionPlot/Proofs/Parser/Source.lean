/-
# The source that errors show

A parser gets the tokens of a text and a source for its errors to show, which need not be that text.
What it answers depends on the tokens alone (`Formula.ofStream_source`).  The source only tells
where an error stands that is found at the end of the tokens: at the end of the source, or if there
is none, behind the last token, from where on the text is blank.

Two parsers that differ in nothing but their sources have the same tokens in front of them, so they
stop at the same token.  What an error at the end says about itself comes from its verdict.
-/
import FunctionPlot.Proofs.Expression.ErrorPlace
import FunctionPlot.Proofs.Parser.Alike

namespace FunctionPlot

namespace TokenStream

variable {text : Text} {s : TokenStream} {t : Token}

/-- The offset behind the last token. -/
def lastEnd (s : TokenStream) : Nat := s.tokens.getLast?.elim 0 Token.endPosition

namespace Scanned

lemma endPosition_le_lastEnd (h : Scanned text 0 s) (ht : t ∈ s.tokens) :
    t.endPosition ≤ s.lastEnd := by
  have hne := List.ne_nil_of_mem ht
  have hsorted := h.sorted
  rw [lastEnd, List.getLast?_eq_some_getLast hne, Option.elim_some]
  rw [← List.dropLast_append_getLast hne, List.pairwise_append] at hsorted
  rw [← List.dropLast_append_getLast hne, List.mem_append, List.mem_singleton] at ht
  rcases ht with ht | rfl
  · refine (hsorted.2.2 t ht _ (List.mem_singleton_self _)).2.trans ?_
    exact Nat.le_add_right _ _
  · exact le_rfl

lemma lastEnd_le (h : Scanned text 0 s) : s.lastEnd ≤ text.length := by
  rw [lastEnd]
  cases hlast : s.tokens.getLast? with
  | none => exact Nat.zero_le _
  | some t => exact (h.endPosition_le t (List.mem_of_getLast? hlast)).trans h.stop_le

/-- Behind the last token of a text that is read to its end there is nothing but blanks. -/
lemma isBlank_of_lastEnd_le (h : Scanned text 0 s) (hfault : s.fault? = none) {u : CodeUnit}
    (hu : u ∈ text.drop s.lastEnd) : isBlank u := by
  obtain ⟨i, hi⟩ := List.mem_iff_getElem?.mp hu
  rw [List.getElem?_drop] at hi
  have hlt : s.lastEnd + i < s.stop text := by
    rw [stop, hfault, Option.elim_none]
    exact (List.getElem?_eq_some_iff.mp hi).1
  rcases h.covered _ (Nat.zero_le _) hlt with ⟨t, ht, -, hend⟩ | ⟨v, hv, hblank⟩
  · have := h.endPosition_le_lastEnd ht
    omega
  · cases hi.symm.trans hv
    exact hblank

end Scanned

end TokenStream

namespace Formula

open TokenStream

variable {text source : Text} {e e' : FormulaError} {expected found : Text} {reason? : Option Text}

lemma mapPosition_id (f : Formula) : f.mapPosition id = f := by
  induction f with
  | constant value position => rfl
  | symbol name position => rfl
  | negation operand position ih => rw [mapPosition, ih, id]
  | binary op left right position ihleft ihright => rw [mapPosition, ihleft, ihright, id]
  | call function arguments position ih =>
    rw [mapPosition, mapPositions_eq_map, List.map_congr_left ih, List.map_id', id]

/-- An error that found something else than it expected found it at the next token or at the end. -/
lemma exists_mismatch_eq (h : ofStream (.ofText text) source = .error e)
    (hcause : e.cause = .mismatch expected found reason?) :
    ∃ next? : Option Token, (next? = none → (TokenStream.ofText text).fault? = none) ∧
      e = (TokenStream.ofText text).mismatch source next? expected reason? := by
  have hverdict := verdict (.ofText text) source
  rw [h] at hverdict
  cases hverdict with
  | stopped w tokens_eq fault describes viable excludes =>
    cases hcause
    exact ⟨_, fun hrest => fault (List.head?_eq_none_iff.mp hrest), rfl⟩
  | faulty fault =>
    obtain ⟨u, hstray, -⟩ := (scanned_ofText text).fault e fault
    rw [hstray] at hcause
    cases hcause

/-- An error at the end of the tokens stands at the end of the source, or behind the last token. -/
lemma position_of_end (h : ofStream (.ofText text) source = .error e)
    (hcause : e.cause = .mismatch expected "end of input" reason?) :
    (TokenStream.ofText text).fault? = none ∧ e.position
      = if source.isEmpty then (TokenStream.ofText text).lastEnd else source.length := by
  obtain ⟨_ | t, hnone, rfl⟩ := exists_mismatch_eq h hcause
  · exact ⟨hnone rfl, rfl⟩
  · simp only [TokenStream.mismatch, Cause.mismatch.injEq] at hcause
    exact absurd hcause.2.1 (Expression.quote_ne_end t)

/-- The error of a text at the end of its tokens stands at the end of the text. -/
lemma position_of_end_ofText (h : ofText text = .error e)
    (hcause : e.cause = .mismatch expected "end of input" reason?) : e.position = text.length := by
  have hposition := (position_of_end h hcause).2
  cases text with
  | nil =>
    rw [hposition]
    exact Nat.eq_zero_of_le_zero (scanned_ofText []).lastEnd_le
  | cons u text => exact hposition

/-- Errors of a text are related if they are the same and due to a stray character. -/
def SameStray (e e' : FormulaError) : Prop :=
  e = e' ∧ ∃ character, e.cause = .strayCharacter character

/-- With another source the same formula is read, or the same error is met at a stray character, or
parsers that are alike expect the same. -/
lemma answersAlike_source (text source : Text) :
    AnswersAlike id SameStray (ofText text) (ofStream (.ofText text) source) := by
  refine ofStream_alike rfl ?_ _ _
  cases hfault : (TokenStream.ofText text).fault? with
  | none => exact .none
  | some e =>
    obtain ⟨u, hstray, -⟩ := (scanned_ofText text).fault e hfault
    exact .some ⟨rfl, _, by rw [hstray]; rfl⟩

/-- Parsers that stop in front of the same token give the same cause, and the same place unless they
are at the end. -/
lemma cause_and_position (h : Parser.FailsAlike id SameStray e e') : e'.cause = e.cause ∧
    ((∀ expected reason?, e.cause ≠ .mismatch expected "end of input" reason?) →
      e'.position = e.position) := by
  cases h with
  | fault h =>
    obtain ⟨rfl, -⟩ := h
    exact ⟨rfl, fun _ => rfl⟩
  | @mismatch p q expected h mem reason? =>
    refine ⟨by rw [Parser.mismatch, Parser.mismatch, h.found_eq], fun hend => ?_⟩
    rcases h.current_cases with ⟨hp, -⟩ | ⟨kind, name, i, j, hp, hq, hij⟩
    · refine absurd ?_ (hend expected reason?)
      rw [Parser.mismatch, Parser.found, hp]
    · rw [Parser.mismatch, Parser.mismatch, hp, hq]
      exact hij.symm

/-- What is read from the tokens of a text does not depend on the source that errors show.  With
another source the same formula is read, or an error has the same cause, and it stands at the same
place unless it is found at the end of the tokens.  Then it stands at the end of the source, or if
there is none, behind the last token, from where on the text is blank. -/
theorem ofStream_source (text source : Text) :
    (∀ f, ofText text = .ok f ↔ ofStream (.ofText text) source = .ok f) ∧
    ∀ e, ofText text = .error e → ∃ e', ofStream (.ofText text) source = .error e' ∧
      e'.cause = e.cause ∧
      ((∀ expected reason?, e.cause ≠ .mismatch expected "end of input" reason?) →
        e'.position = e.position) ∧
      ∀ expected reason?, e.cause = .mismatch expected "end of input" reason? →
        e.position = text.length ∧
        e'.position
          = (if source.isEmpty then (TokenStream.ofText text).lastEnd else source.length) ∧
        (TokenStream.ofText text).lastEnd ≤ text.length ∧
        ∀ u ∈ text.drop (TokenStream.ofText text).lastEnd, isBlank u := by
  have halike := answersAlike_source text source
  generalize hown : ofText text = own at halike
  generalize hother : ofStream (.ofText text) source = other at halike
  cases halike with
  | @ok f g h =>
    rw [mapPosition_id, mapPosition_id] at h
    subst h
    exact ⟨fun _ => Iff.rfl, fun e he => nomatch he⟩
  | @error e e' h =>
    obtain ⟨hcause, hposition⟩ := cause_and_position h
    refine ⟨fun f => iff_of_false nofun nofun, ?_⟩
    rintro _ ⟨⟩
    refine ⟨e', rfl, hcause, hposition, fun expected reason? hend => ?_⟩
    obtain ⟨hfault, hplace⟩ := position_of_end hother (hcause.trans hend)
    have hscanned := scanned_ofText text
    exact ⟨position_of_end_ofText hown hend, hplace, hscanned.lastEnd_le,
      fun u => hscanned.isBlank_of_lastEnd_le hfault⟩

/-- Without a source the end of the tokens is behind the last one, not behind the blanks. -/
example : ofText "x+ " = .error ⟨.mismatch "expression" "end of input" none, 3, "x+ "⟩ ∧
    ofStream (.ofText "x+ ") [] = .error ⟨.mismatch "expression" "end of input" none, 2, []⟩ := by
  have hread : TokenStream.ofText "x+ "
      = .ofList [⟨.identifier, "x", 0⟩, ⟨.operator .add, "+", 1⟩] := by cbv
  rw [ofText, hread]
  exact ⟨rfl, rfl⟩

end Formula

end FunctionPlot
