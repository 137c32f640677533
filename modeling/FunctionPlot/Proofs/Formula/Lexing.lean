/-
# The tokens at the front of a text

Signs, identifiers and numerals at the front of a text are tokens.  An identifier or a numeral is
one token if what follows does not continue it, which is so in front of a delimiter.

In the other direction, all the tokens of a text have numbers without a minus sign and names that
are identifiers (`TokenStream.lexical_ofText`).
-/
import FunctionPlot.Formula.TokenStream
import FunctionPlot.Proofs.Formula.Normal

namespace FunctionPlot

/-- A text that continues neither an identifier nor a numeral. -/
def Delimits (rest : Text) : Prop := Lacks (fun u => isIdentifierPart u || u == unit '.') rest

lemma Delimits.nil : Delimits [] := Lacks.nil

lemma Delimits.cons {u : CodeUnit} {rest : Text} (hpart : isIdentifierPart u = false)
    (hpoint : (u == unit '.') = false) : Delimits (u :: rest) := by
  rw [Delimits, Lacks.cons_iff, hpart, hpoint]
  rfl

lemma Delimits.lacks_part {rest : Text} (h : Delimits rest) : Lacks isIdentifierPart rest := by
  intro u hu
  have hu' := h u hu
  simp only [Bool.or_eq_false_iff] at hu'
  exact hu'.1

lemma isIdentifierPart_of_isExponentMark {u : CodeUnit} (h : isExponentMark u) :
    isIdentifierPart u := by
  simp only [isExponentMark, Bool.or_eq_true, beq_iff_eq] at h
  rcases h with rfl | rfl <;> decide

lemma Delimits.lacks_continues {rest : Text} (h : Delimits rest) :
    Lacks Numeral.continues rest := by
  intro u hu
  have hu' := h u hu
  simp only [Bool.or_eq_false_iff] at hu'
  have hmark : isExponentMark u = false := by
    rw [← Bool.not_eq_true]
    intro hmark
    rw [isIdentifierPart_of_isExponentMark hmark] at hu'
    exact absurd hu'.1 (by simp)
  have hdigit : isDigit u = false := by
    have := hu'.1
    simp only [isIdentifierPart, Bool.or_eq_false_iff] at this
    exact this.1.2
  simp [Numeral.continues, hdigit, hu'.2, hmark]

namespace TokenStream

/-- Some tokens in front of a stream. -/
def prepend (ts : List Token) (s : TokenStream) : TokenStream := { s with tokens := ts ++ s.tokens }

lemma cons_eq_prepend (t : Token) (s : TokenStream) : cons t s = prepend [t] s := rfl

lemma prepend_append (ts us : List Token) (s : TokenStream) :
    prepend (ts ++ us) s = prepend ts (prepend us s) := by
  simp [prepend]

lemma prepend_cons (t : Token) (ts : List Token) (s : TokenStream) :
    prepend (t :: ts) s = cons t (prepend ts s) := rfl

variable {source rest t : Text} {position : Nat} {u : CodeUnit} {kind : TokenKind}

lemma ofRest_blank (h : isBlank u) :
    ofRest source position (u :: rest) = ofRest source (position + 1) rest := by
  rw [ofRest, if_pos h]

lemma ofRest_lexeme (hblank : isBlank u = false)
    (h : lexeme? u (t ++ rest) = some (kind, t.length)) :
    ofRest source position (u :: (t ++ rest))
      = cons ⟨kind, u :: t, position⟩ (ofRest source (position + 1 + t.length) rest) := by
  rw [ofRest, if_neg (by simp [hblank]), h]
  simp

lemma ofRest_sign (hblank : isBlank u = false) (h : lexeme? u rest = some (kind, 0)) :
    ofRest source position (u :: rest)
      = cons ⟨kind, [u], position⟩ (ofRest source (position + 1) rest) := by
  have hlexeme : ofRest source position (u :: ([] ++ rest)) = _ := ofRest_lexeme hblank h
  simpa using hlexeme

lemma ofRest_operator (op : Operator) : ofRest source position (op.sign :: rest)
    = cons ⟨.operator op, [op.sign], position⟩ (ofRest source (position + 1) rest) := by
  refine ofRest_sign ?_ ?_
  · cases op <;> decide
  · cases op <;> rfl

lemma ofRest_leftParen : ofRest source position (unit '(' :: rest)
    = cons ⟨.leftParen, [unit '('], position⟩ (ofRest source (position + 1) rest) :=
  ofRest_sign (by decide) rfl

lemma ofRest_rightParen : ofRest source position (unit ')' :: rest)
    = cons ⟨.rightParen, [unit ')'], position⟩ (ofRest source (position + 1) rest) :=
  ofRest_sign (by decide) rfl

lemma ofRest_comma : ofRest source position (unit ',' :: rest)
    = cons ⟨.comma, [unit ','], position⟩ (ofRest source (position + 1) rest) :=
  ofRest_sign (by decide) rfl

/-- No blank is part of an identifier. -/
lemma isBlank_eq_false_of_isIdentifierPart (h : isIdentifierPart u) : isBlank u = false := by
  have hblanks : blanks.all (fun b => !isIdentifierPart b) := by decide
  rw [← Bool.not_eq_true, isBlank, List.contains_iff_mem]
  intro hu
  have hpart := List.all_eq_true.mp hblanks u hu
  rw [h] at hpart
  cases hpart

lemma isIdentifierPart_of_isIdentifierStart (h : isIdentifierStart u) : isIdentifierPart u := by
  simp only [isIdentifierStart, isIdentifierPart, Bool.or_eq_true] at h ⊢
  rcases h with h | h
  · exact .inl (.inl h)
  · exact .inr h

/-- An identifier starts with neither a digit nor a point. -/
lemma not_isDigit_of_isIdentifierStart (h : isIdentifierStart u) :
    isDigit u = false ∧ (u == unit '.') = false := by
  constructor
  · rw [← Bool.not_eq_true]
    intro hdigit
    simp only [isIdentifierStart, isLetter, isDigit, Bool.or_eq_true, Bool.and_eq_true,
      decide_eq_true_eq, beq_iff_eq, UInt16.le_iff_toNat_le] at h hdigit
    -- the digits stand in front of all the letters
    have h9 : (unit '9').toNat = 57 := rfl
    have hA : (unit 'A').toNat = 65 := rfl
    have ha : (unit 'a').toNat = 97 := rfl
    rcases h with (h | h) | rfl
    · omega
    · omega
    · exact absurd hdigit.2 (by decide)
  · rw [← Bool.not_eq_true, beq_iff_eq]
    rintro rfl
    revert h
    decide

lemma ofRest_identifier {name : Text} (hname : IsIdentifier name) (hrest : Delimits rest) :
    ofRest source position (name ++ rest)
      = cons ⟨.identifier, name, position⟩ (ofRest source (position + name.length) rest) := by
  obtain ⟨first, more, rfl, hfirst, hmore⟩ := hname
  obtain ⟨hdigit, hpoint⟩ := not_isDigit_of_isIdentifierStart hfirst
  have hblank := isBlank_eq_false_of_isIdentifierPart (isIdentifierPart_of_isIdentifierStart hfirst)
  have hlexeme : lexeme? first (more ++ rest) = some (.identifier, more.length) := by
    rw [lexeme?, if_neg (by simp [hdigit, hpoint]), if_pos hfirst,
      hrest.lacks_part.takeWhile_append hmore]
  rw [List.cons_append, ofRest_lexeme hblank hlexeme, List.length_cons, Nat.add_assoc,
    Nat.add_comm 1]

/-- A number is one token if it is measured in full. -/
lemma ofRest_number (hstart : isDigit u || u == unit '.' && (t ++ rest).head?.any isDigit)
    (hlength : numeralLength (u :: (t ++ rest)) = (u :: t).length) :
    ofRest source position (u :: (t ++ rest))
      = cons ⟨.number (Number.ofNumeral (u :: t)), u :: t, position⟩
          (ofRest source (position + (u :: t).length) rest) := by
  have htake : (u :: (t ++ rest)).take (t.length + 1) = u :: t := by simp
  have hlexeme : lexeme? u (t ++ rest)
      = some (.number (Number.ofNumeral (u :: t)), t.length) := by
    rw [lexeme?, if_pos hstart]
    simp only [hlength, List.length_cons, htake, Nat.add_sub_cancel]
  have hblank : isBlank u = false := by
    simp only [Bool.or_eq_true, Bool.and_eq_true, beq_iff_eq] at hstart
    rcases hstart with hdigit | ⟨rfl, -⟩
    · exact isBlank_eq_false_of_isDigit hdigit
    · decide
  rw [ofRest_lexeme hblank hlexeme, List.length_cons, Nat.add_assoc, Nat.add_comm 1]

lemma ofRest_numeral (n : Numeral) (hrest : Delimits rest) :
    ofRest source position (n.text ++ rest)
      = cons ⟨.number (Number.ofNumeral n.text), n.text, position⟩
          (ofRest source (position + n.text.length) rest) := by
  obtain ⟨first, more, htext, hfirst⟩ := n.exists_head
  have hlength := n.numeralLength_text hrest.lacks_continues
  rw [htext] at hlength ⊢
  exact ofRest_number (by simp [hfirst]) hlength

end TokenStream

/-! ### What all the tokens of a text are like -/

/-- A token as texts have them. -/
structure Token.Lexical (t : Token) : Prop where
  not_isNegative : ∀ value, t.kind = .number value → ¬ Number.isNegative value
  isIdentifier : t.kind = .identifier → IsIdentifier t.text

lemma Token.lexical_of_ne {t : Token} (hnumber : ∀ value, t.kind ≠ .number value)
    (hname : t.kind ≠ .identifier) : t.Lexical :=
  ⟨fun value h => absurd h (hnumber value), fun h => absurd h hname⟩

/-- The token at the front of a text is as texts have them. -/
lemma lexical_of_lexeme? {first : CodeUnit} {rest : Text} {kind : TokenKind} {more : Nat}
    (h : lexeme? first rest = some (kind, more)) (position : Nat) :
    Token.Lexical ⟨kind, first :: rest.take more, position⟩ := by
  rw [lexeme?] at h
  split at h
  · cases h
    refine ⟨fun value hvalue => ?_, (nomatch ·)⟩
    cases hvalue
    exact Number.not_isNegative_ofNumeral _
  split at h
  · rename_i hfirst
    cases h
    refine ⟨fun _ => (nomatch ·), fun _ => ⟨first, _, rfl, hfirst, fun u hu => ?_⟩⟩
    have hprefix := List.takeWhile_prefix isIdentifierPart (l := rest)
    rw [← List.prefix_iff_eq_take.mp hprefix] at hu
    exact List.all_eq_true.mp List.all_takeWhile u hu
  split at h
  · cases h
    exact Token.lexical_of_ne (by simp) (by simp)
  split at h
  · cases h
    exact Token.lexical_of_ne (by simp) (by simp)
  split at h
  · cases h
    exact Token.lexical_of_ne (by simp) (by simp)
  split at h
  · cases h
    exact Token.lexical_of_ne (by simp) (by simp)
  · cases h

namespace TokenStream

lemma lexical_ofRest (source : Text) (position : Nat) (rest : Text) :
    ∀ t ∈ (ofRest source position rest).tokens, t.Lexical := by
  fun_induction ofRest source position rest with
  | case1 => simp [ended]
  | case2 position first rest hblank ih => exact ih
  | case3 => simp
  | case4 position first rest hblank kind more hlexeme ih =>
    intro t ht
    rcases List.mem_cons.mp ht with rfl | ht
    · exact lexical_of_lexeme? hlexeme position
    · exact ih t ht

/-- The tokens of a text have numbers without a minus sign and names that are identifiers. -/
theorem lexical_ofText (source : Text) : ∀ t ∈ (ofText source).tokens, t.Lexical :=
  lexical_ofRest source 0 source

end TokenStream

end FunctionPlot
