/-
# Blanks between tokens

Where the tokens of a text are written apart, with blanks between them and around them, the same
tokens are read, and the formula or the error is the same up to the positions
(`TokenStream.ofText_spaced`).

A token needs no more than a blank behind it, or the end of the text, to be read alone
(`TokenStream.ofRest_token`): no blank is part of a numeral or an identifier.  So the text in which
the token was found does not matter, where its end may have depended on what followed.
-/
import FunctionPlot.Proofs.Formula.Tokenization
import FunctionPlot.Proofs.Parser.Alike

namespace FunctionPlot

/-- A text of blanks. -/
def Blanks (t : Text) : Prop := ∀ u ∈ t, isBlank u

instance (t : Text) : Decidable (Blanks t) := decidable_of_iff (t.all isBlank) List.all_eq_true

/-- A text that has a blank at its front, or nothing. -/
def OpensBlank (t : Text) : Prop := ∀ u ∈ t.head?, isBlank u

namespace OpensBlank

variable {rest : Text}

lemma of_blanks (h : Blanks rest) : OpensBlank rest := fun u hu => h u (List.mem_of_mem_head? hu)

lemma of_append {gap : Text} (h : Blanks gap) (hne : gap ≠ []) : OpensBlank (gap ++ rest) := by
  obtain ⟨u, gap, rfl⟩ := List.exists_cons_of_ne_nil hne
  rintro _ ⟨⟩
  exact h u List.mem_cons_self

lemma lacks {p : CodeUnit → Bool} (h : OpensBlank rest) (hp : ∀ u, p u → isBlank u = false) :
    Lacks p rest := by
  intro u hu
  rw [← Bool.not_eq_true]
  intro hpart
  have hblank := h u hu
  rw [hp u hpart] at hblank
  cases hblank

/-- No blank continues an identifier or a numeral. -/
lemma delimits (h : OpensBlank rest) : Delimits rest := by
  refine h.lacks fun u hu => ?_
  rcases Bool.or_eq_true_iff.mp hu with hpart | hpoint
  · exact TokenStream.isBlank_eq_false_of_isIdentifierPart hpart
  · rw [beq_iff_eq.mp hpoint]
    decide

end OpensBlank

namespace Lexicon

variable {t rest : Text}

/-- A numeral is found in full in front of what cannot stand in a numeral. -/
lemma numeralLength_of_mem_numeral (ht : t ∈ numeral) (hrest : Lacks isNumeralPart rest) :
    numeralLength (t ++ rest) = t.length := by
  have hfront : t <+: t ++ rest := List.prefix_append t rest
  have hlongest := isLongestPrefix_numeral (startsNumeral_of_mem_numeral ht hfront)
  have hle := numeralLength_le (t ++ rest)
  have hge := hlongest.length_le t ht hfront
  rw [List.length_take, Nat.min_eq_left hle] at hge
  refine le_antisymm ?_ hge
  by_contra hlt
  -- a longer numeral would go on with the first code unit of the rest
  have hget : ((t ++ rest).take (numeralLength (t ++ rest)))[t.length]? = rest.head? := by
    rw [List.getElem?_take_of_lt (by omega), List.getElem?_append_right (Nat.le_refl _),
      Nat.sub_self, List.head?_eq_getElem?]
  cases hhead : rest.head? with
  | none =>
    obtain rfl := List.head?_eq_none_iff.mp hhead
    simp only [List.append_nil] at hle hlt
    omega
  | some u =>
    rw [hhead] at hget
    have hpart := isNumeralPart_of_mem_numeral hlongest.mem u (List.mem_of_getElem? hget)
    rw [hrest u hhead] at hpart
    cases hpart

end Lexicon

namespace TokenStream

variable {source before after rest t : Text} {position start : Nat}

lemma ofRest_blanks (hbefore : Blanks before) :
    ofRest source position (before ++ rest) = ofRest source (position + before.length) rest := by
  induction before generalizing position with
  | nil => rfl
  | cons u before ih =>
    obtain ⟨hu, hbefore⟩ := List.forall_mem_cons.mp hbefore
    rw [List.cons_append, ofRest_blank hu, ih hbefore, List.length_cons, Nat.add_assoc,
      Nat.add_comm 1]

/-- Nothing is read from blanks. -/
lemma ofRest_of_blanks (hafter : Blanks after) : ofRest source position after = ended := by
  have hblanks : ofRest source position (after ++ []) = _ := ofRest_blanks hafter
  rw [List.append_nil, ofRest_nil] at hblanks
  exact hblanks

/-- A numeral is a token in front of what cannot stand in a numeral. -/
lemma ofRest_of_mem_numeral (ht : t ∈ Lexicon.numeral)
    (hrest : Lacks Lexicon.isNumeralPart rest) : ofRest source position (t ++ rest)
      = cons ⟨.number (Number.ofNumeral t), t, position⟩
          (ofRest source (position + t.length) rest) := by
  obtain ⟨u, v, rfl⟩ := List.exists_cons_of_ne_nil (l := t) fun hnil =>
    (TokenKind.number 0).nil_notMem_language (hnil ▸ ht)
  obtain ⟨first, more, htext, hstart⟩ :=
    Lexicon.startsNumeral_of_mem_numeral ht (List.prefix_append (u :: v) rest)
  rw [List.cons_append] at htext
  obtain ⟨rfl, rfl⟩ := List.cons.inj htext
  exact ofRest_number hstart (Lexicon.numeralLength_of_mem_numeral ht hrest)

/-- A token with a blank or nothing behind it is read alone. -/
theorem ofRest_token {kind : TokenKind} (ht : t ∈ kind.language)
    (hvalue : ∀ value, kind = .number value → value = Number.ofNumeral t)
    (hrest : OpensBlank rest) : ofRest source position (t ++ rest)
      = cons ⟨kind, t, position⟩ (ofRest source (position + t.length) rest) := by
  cases kind with
  | number value =>
    obtain rfl := hvalue value rfl
    exact ofRest_of_mem_numeral ht
      (hrest.lacks fun u => Lexicon.isBlank_eq_false_of_isNumeralPart)
  | identifier =>
    obtain ⟨first, more, hfirst, hmore, rfl⟩ := Lexicon.mem_single_mul_star.mp ht
    exact ofRest_identifier ⟨first, more, rfl, hfirst, hmore⟩ hrest.delimits
  | operator op =>
    obtain rfl : t = [op.sign] := ht
    exact ofRest_operator op
  | leftParen =>
    obtain rfl : t = [unit '('] := ht
    exact ofRest_leftParen
  | rightParen =>
    obtain rfl : t = [unit ')'] := ht
    exact ofRest_rightParen
  | comma =>
    obtain rfl : t = [unit ','] := ht
    exact ofRest_comma

/-! ### Tokens written apart -/

/-- The text of some tokens, each behind a text that stands in front of it. -/
def spaced (pieces : List (Text × Token)) : Text :=
  pieces.flatMap fun piece => piece.1 ++ piece.2.text

/-- The tokens of such a text at their places, if the text starts at some offset. -/
def placed (start : Nat) : List (Text × Token) → List Token
  | [] => []
  | (gap, t) :: pieces =>
    { t with position := start + gap.length } ::
      placed (start + gap.length + t.text.length) pieces

/-- Tokens are apart: blanks stand in front of each of them, and of all but the first there is at
least one. -/
structure Apart (pieces : List (Text × Token)) : Prop where
  blanks : ∀ piece ∈ pieces, Blanks piece.1
  ne_nil : ∀ piece ∈ pieces.tail, piece.1 ≠ []

variable {pieces : List (Text × Token)} {piece : Text × Token} {s : TokenStream} {behind : Text}

lemma spaced_cons (piece : Text × Token) (pieces : List (Text × Token)) :
    spaced (piece :: pieces) = piece.1 ++ (piece.2.text ++ spaced pieces) := by
  rw [spaced, List.flatMap_cons, List.append_assoc, spaced]

lemma Apart.tail (h : Apart (piece :: pieces)) : Apart pieces :=
  ⟨fun p hp => h.blanks p (List.mem_cons_of_mem _ hp),
    fun p hp => h.ne_nil p (List.mem_of_mem_tail hp)⟩

/-- Behind a token of some that are apart comes a blank or nothing. -/
lemma Apart.opensBlank (h : Apart (piece :: pieces)) (hbehind : Blanks behind) :
    OpensBlank (spaced pieces ++ behind) := by
  cases pieces with
  | nil => exact .of_blanks hbehind
  | cons next pieces =>
    rw [spaced_cons, List.append_assoc]
    exact .of_append (h.tail.blanks next List.mem_cons_self) (h.ne_nil next List.mem_cons_self)

/-- Tokens that are apart are read at their places. -/
lemma ofRest_spaced (h : Apart pieces) (hbehind : Blanks behind)
    (hlexemes : ∀ piece ∈ pieces, piece.2.text ∈ piece.2.kind.language ∧
      ∀ value, piece.2.kind = .number value → value = Number.ofNumeral piece.2.text) :
    ofRest source start (spaced pieces ++ behind) = .ofList (placed start pieces) := by
  induction pieces generalizing start with
  | nil => exact ofRest_of_blanks hbehind
  | cons piece pieces ih =>
    obtain ⟨⟨hmem, hvalue⟩, hlexemes⟩ := List.forall_mem_cons.mp hlexemes
    rw [spaced_cons, List.append_assoc, List.append_assoc,
      ofRest_blanks (h.blanks piece List.mem_cons_self),
      ofRest_token hmem hvalue (h.opensBlank hbehind), ih h.tail hlexemes]
    rfl

/-- Each token is placed behind what stands in front of it. -/
lemma getElem?_placed {before after : List (Text × Token)} {gap : Text} {t : Token} :
    (placed start (before ++ (gap, t) :: after))[before.length]?
      = some { t with position := start + (spaced before ++ gap).length } := by
  induction before generalizing start with
  | nil => rfl
  | cons piece before ih =>
    rw [List.cons_append, placed, List.length_cons, List.getElem?_cons_succ, ih, spaced_cons]
    simp only [List.length_append, Nat.add_assoc]

lemma length_placed (start : Nat) (pieces : List (Text × Token)) :
    (placed start pieces).length = pieces.length := by
  induction pieces generalizing start with
  | nil => rfl
  | cons piece pieces ih => rw [placed, List.length_cons, ih, List.length_cons]

/-- Up to their positions the tokens are the same as before. -/
lemma map_placed (start : Nat) (pieces : List (Text × Token)) :
    (placed start pieces).map (Token.mapPosition fun _ => 0)
      = (pieces.map (·.2)).map (Token.mapPosition fun _ => 0) := by
  induction pieces generalizing start with
  | nil => rfl
  | cons piece pieces ih =>
    rw [placed, List.map_cons, ih]
    rfl

end TokenStream

namespace Formula

/-- Two readings come to the same up to positions: to the same formula, or to errors with the same
expectation, finding and reason. -/
inductive SameReading :
    Except FormulaError Formula → Except FormulaError Formula → Prop
  | formula {f g : Formula} (h : f.stripped = g.stripped) : SameReading (.ok f) (.ok g)
  | refused (expected found : Text) (reason? : Option Text) (i j : Nat) (s t : Text) :
    SameReading (.error ⟨.mismatch expected found reason?, i, s⟩)
      (.error ⟨.mismatch expected found reason?, j, t⟩)

lemma AnswersAlike.sameReading {x y : Except FormulaError Formula}
    (h : AnswersAlike (fun _ => 0) (fun _ _ => False) x y) : SameReading x y := by
  cases h with
  | ok h =>
    rw [mapPosition_zero, mapPosition_zero] at h
    exact .formula h
  | error h =>
    cases h with
    | @mismatch p q expected h mem reason? =>
      rw [Parser.mismatch, Parser.mismatch, h.found_eq]
      exact .refused _ _ _ _ _ _ _
    | fault h => exact h.elim

end Formula

namespace TokenStream

variable {source behind : Text} {pieces : List (Text × Token)}

/-- The tokens of a text that is read to its end, written apart with blanks between and around
them: the text has the same tokens, each at its place, and it is the same formula up to positions
or fails for the same reason. -/
theorem ofText_spaced (hfault : (ofText source).fault? = none)
    (htokens : pieces.map (·.2) = (ofText source).tokens) (hapart : Apart pieces)
    (hbehind : Blanks behind) :
    (ofText (spaced pieces ++ behind)).fault? = none ∧
    (ofText (spaced pieces ++ behind)).tokens.length = (ofText source).tokens.length ∧
    (∀ before gap t after, pieces = before ++ (gap, t) :: after →
      (ofText (spaced pieces ++ behind)).tokens[before.length]?
        = some { t with position := (spaced before ++ gap).length }) ∧
    Formula.SameReading (Formula.ofText (spaced pieces ++ behind)) (Formula.ofText source) := by
  have hlexemes : ∀ piece ∈ pieces, piece.2.text ∈ piece.2.kind.language ∧
      ∀ value, piece.2.kind = .number value → value = Number.ofNumeral piece.2.text := by
    intro piece hpiece
    have hmem : piece.2 ∈ (ofText source).tokens :=
      htokens ▸ List.mem_map_of_mem hpiece
    have hstands := (scanned_ofText source).stands _ hmem
    exact ⟨hstands.longest.mem, hstands.value_eq⟩
  have hread : ofText (spaced pieces ++ behind) = .ofList (placed 0 pieces) :=
    ofRest_spaced hapart hbehind hlexemes
  refine ⟨by rw [hread]; rfl, ?_, ?_, ?_⟩
  · rw [hread, ← htokens, List.length_map]
    exact length_placed 0 pieces
  · rintro before gap t after rfl
    rw [hread, ← Nat.zero_add (spaced before ++ gap).length]
    exact getElem?_placed
  · refine Formula.AnswersAlike.sameReading (Formula.ofStream_alike ?_ ?_ _ _)
    · rw [hread, ← htokens]
      exact map_placed 0 pieces
    · rw [hread, hfault]
      exact .none

theorem ofText_spaced_difference :
    let pieces : List (Text × Token) := [([], ⟨.identifier, "x", 0⟩),
      ("\t", ⟨.operator .sub, "-", 1⟩), ("\n ", ⟨.identifier, "y", 2⟩)]
    (ofText "x-y").fault? = none ∧ pieces.map (·.2) = (ofText "x-y").tokens ∧ Apart pieces ∧
      Blanks " " ∧
    (ofText (spaced pieces ++ " ")).fault? = none ∧
    (ofText (spaced pieces ++ " ")).tokens.length = (ofText "x-y").tokens.length ∧
    (∀ before gap t after, pieces = before ++ (gap, t) :: after →
      (ofText (spaced pieces ++ " ")).tokens[before.length]?
        = some { t with position := (spaced before ++ gap).length }) ∧
    Formula.SameReading (Formula.ofText (spaced pieces ++ " ")) (Formula.ofText "x-y") := by
  intro pieces
  have hread : ofText "x-y"
      = .ofList [⟨.identifier, "x", 0⟩, ⟨.operator .sub, "-", 1⟩, ⟨.identifier, "y", 2⟩] := by cbv
  have hfault : (ofText "x-y").fault? = none := by rw [hread]; rfl
  have htokens : pieces.map (·.2) = (ofText "x-y").tokens := by rw [hread]; rfl
  have hapart : Apart pieces := ⟨by decide, by decide⟩
  exact ⟨hfault, htokens, hapart, by decide, ofText_spaced hfault htokens hapart (by decide)⟩

end TokenStream

end FunctionPlot
