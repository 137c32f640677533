/-
# The lexicon of formulas

Each kind of token has a language, given by the operations on languages.  Numerals and identifiers
are

    numeral    := (digit+ '.'? digit* | '.' digit+) (mark sign? digit+)?
    identifier := start part*

and the other kinds have one text each.  The token at the front of a text is the longest prefix of
the text in the language of its kind (`isLexeme_of_lexeme?`), and a text without such a token
has no prefix in any of the languages (`not_startsToken_of_lexeme?`).

The two parts of a numeral meet in one place only: behind the longest mantissa.  In a shorter one
the next code unit is a digit or a point, and neither of them starts an exponent.
-/
import FunctionPlot.Proofs.Formula.Lexing
import Mathlib.Computability.Language

namespace FunctionPlot

open Computability

namespace Lexicon

/-- The texts of a single code unit of some kind. -/
def single (p : CodeUnit → Bool) : Language CodeUnit := {t | ∃ u, p u ∧ t = [u]}

/-- Some digits, at least one. -/
def digits : Language CodeUnit := single isDigit * (single isDigit)∗

/-- The point of a numeral. -/
def point : Language CodeUnit := {[unit '.']}

/-- A numeral up to its exponent. -/
def mantissa : Language CodeUnit := digits * (1 + point) * (single isDigit)∗ + point * digits

/-- The exponent of a numeral. -/
def exponent : Language CodeUnit := single isExponentMark * (1 + single isSign) * digits

/-- The numerals. -/
def numeral : Language CodeUnit := mantissa * (1 + exponent)

/-- The identifiers. -/
def identifier : Language CodeUnit := single isIdentifierStart * (single isIdentifierPart)∗

end Lexicon

/-- The texts of the tokens of a kind. -/
def TokenKind.language : TokenKind → Language CodeUnit
  | .number _ => Lexicon.numeral
  | .identifier => Lexicon.identifier
  | .operator op => {[op.sign]}
  | .leftParen => {[unit '(']}
  | .rightParen => {[unit ')']}
  | .comma => {[unit ',']}

/-- A text is the longest prefix in a language of another text. -/
structure IsLongestPrefix (l : Language CodeUnit) (t s : Text) : Prop where
  mem : t ∈ l
  front : t <+: s
  length_le : ∀ t' ∈ l, t' <+: s → t'.length ≤ t.length

/-- A text is the token of some kind at the front of another text: the longest prefix of the kind,
with the number of the text if it is a numeral. -/
structure IsLexeme (kind : TokenKind) (t s : Text) : Prop where
  longest : IsLongestPrefix kind.language t s
  value_eq : ∀ value, kind = .number value → value = Number.ofNumeral t

/-- A token of some kind stands at the front of a text. -/
def StartsToken (s : Text) : Prop := ∃ kind : TokenKind, ∃ t ∈ kind.language, t <+: s

namespace Lexicon

variable {p : CodeUnit → Bool} {s t rest : Text}

@[simp] lemma mem_star_single : t ∈ (single p)∗ ↔ ∀ u ∈ t, p u := by
  rw [Language.mem_kstar]
  constructor
  · rintro ⟨ts, rfl, hts⟩ u hu
    obtain ⟨t, ht, hut⟩ := List.mem_flatten.mp hu
    obtain ⟨v, hv, rfl⟩ := hts t ht
    obtain rfl := List.mem_singleton.mp hut
    exact hv
  · intro h
    refine ⟨t.map fun u => [u], List.flatMap_singleton' t |>.symm, ?_⟩
    intro _ ht
    obtain ⟨u, hu, rfl⟩ := List.mem_map.mp ht
    exact ⟨u, h u hu, rfl⟩

lemma mem_single_mul_star {q : CodeUnit → Bool} :
    t ∈ single p * (single q)∗ ↔ ∃ u v, p u ∧ (∀ w ∈ v, q w) ∧ t = u :: v := by
  constructor
  · rintro ⟨_, ⟨u, hu, rfl⟩, v, hv, rfl⟩
    exact ⟨u, v, hu, mem_star_single.mp hv, rfl⟩
  · rintro ⟨u, v, hu, hv, rfl⟩
    exact ⟨[u], ⟨u, hu, rfl⟩, v, mem_star_single.mpr hv, rfl⟩

lemma mem_digits : t ∈ digits ↔ t ≠ [] ∧ Digits t := by
  rw [digits, mem_single_mul_star]
  constructor
  · rintro ⟨u, v, hu, hv, rfl⟩
    exact ⟨List.cons_ne_nil u v, List.forall_mem_cons.mpr ⟨hu, hv⟩⟩
  · rintro ⟨hne, ht⟩
    obtain ⟨u, v, rfl⟩ := List.exists_cons_of_ne_nil hne
    obtain ⟨hu, hv⟩ := List.forall_mem_cons.mp ht
    exact ⟨u, v, hu, hv, rfl⟩

/-! ### The parts of a numeral -/

/-- A mantissa is either digits only, or digits around a point, on one side of it at least. -/
lemma mem_mantissa : t ∈ mantissa ↔ (t ≠ [] ∧ Digits t) ∨ ∃ whole fraction, Digits whole ∧
    Digits fraction ∧ whole ++ fraction ≠ [] ∧ t = whole ++ unit '.' :: fraction := by
  constructor
  · rintro (⟨_, ⟨whole, hwhole, mark, hmark, rfl⟩, fraction, hfraction, rfl⟩ |
      ⟨_, rfl, fraction, hfraction, rfl⟩)
    · obtain ⟨hne, hwhole⟩ := mem_digits.mp hwhole
      have hfraction := mem_star_single.mp hfraction
      rcases hmark with rfl | rfl
      · exact .inl ⟨by simp [hne], by simpa using hwhole.append hfraction⟩
      · exact .inr ⟨whole, fraction, hwhole, hfraction, by simp [hne], by simp⟩
    · obtain ⟨hne, hfraction⟩ := mem_digits.mp hfraction
      exact .inr ⟨[], fraction, .nil, hfraction, by simpa using hne, rfl⟩
  · rintro (⟨hne, ht⟩ | ⟨whole, fraction, hwhole, hfraction, hne, rfl⟩)
    · refine .inl ⟨t, ⟨t, mem_digits.mpr ⟨hne, ht⟩, [], .inl rfl, by simp⟩, [], ?_, by simp⟩
      exact mem_star_single.mpr (by simp)
    · by_cases hempty : whole = []
      · subst hempty
        exact .inr ⟨[unit '.'], rfl, fraction, mem_digits.mpr ⟨hne, hfraction⟩, rfl⟩
      · exact .inl ⟨whole ++ [unit '.'],
          ⟨whole, mem_digits.mpr ⟨hempty, hwhole⟩, [unit '.'], .inr rfl, rfl⟩, fraction,
          mem_star_single.mpr hfraction, by simp⟩

/-- An exponent is a mark, at most one sign and digits. -/
lemma mem_exponent : t ∈ exponent ↔ ∃ mark sign ds, isExponentMark mark ∧
    (∀ u ∈ sign, isSign u) ∧ sign.length ≤ 1 ∧ ds ≠ [] ∧ Digits ds ∧ t = mark :: (sign ++ ds) := by
  constructor
  · rintro ⟨_, ⟨_, ⟨mark, hmark, rfl⟩, sign, hsign, rfl⟩, ds, hds, rfl⟩
    obtain ⟨hne, hds⟩ := mem_digits.mp hds
    refine ⟨mark, sign, ds, hmark, ?_, ?_, hne, hds, by simp⟩
    · rcases hsign with rfl | ⟨u, hu, rfl⟩
      · simp
      · simpa using hu
    · rcases hsign with rfl | ⟨u, hu, rfl⟩ <;> simp
  · rintro ⟨mark, sign, ds, hmark, hsign, hlength, hne, hds, rfl⟩
    refine ⟨mark :: sign, ⟨[mark], ⟨mark, hmark, rfl⟩, sign, ?_, rfl⟩, ds,
      mem_digits.mpr ⟨hne, hds⟩, by simp⟩
    match sign, hlength with
    | [], _ => exact .inl rfl
    | [u], _ => exact .inr ⟨u, hsign u (by simp), rfl⟩

/-- A code unit that can stand in a numeral. -/
def isNumeralPart (u : CodeUnit) : Bool := Numeral.continues u || isSign u

/-- A code unit that can stand in a mantissa. -/
def isMantissaPart (u : CodeUnit) : Bool := isDigit u || u == unit '.'

lemma not_isMantissaPart_of_isExponentMark {u : CodeUnit} (h : isExponentMark u) :
    isMantissaPart u = false := by
  simp only [isExponentMark, Bool.or_eq_true, beq_iff_eq] at h
  rcases h with rfl | rfl <;> decide

lemma not_isSign_of_isMantissaPart {u : CodeUnit} (h : isMantissaPart u) : isSign u = false := by
  rw [← Bool.not_eq_true, isSign, Bool.or_eq_true, beq_iff_eq, beq_iff_eq]
  rintro (rfl | rfl) <;> revert h <;> decide

lemma isMantissaPart_of_isDigit {u : CodeUnit} (h : isDigit u) : isMantissaPart u := by
  simp [isMantissaPart, h]

lemma isMantissaPart_of_mem_mantissa (h : t ∈ mantissa) : ∀ u ∈ t, isMantissaPart u := by
  rcases mem_mantissa.mp h with ⟨-, ht⟩ | ⟨whole, fraction, hwhole, hfraction, -, rfl⟩
  · intro u hu
    simp [isMantissaPart, ht u hu]
  · intro u hu
    rcases List.mem_append.mp hu with hu | hu
    · simp [isMantissaPart, hwhole u hu]
    rcases List.mem_cons.mp hu with rfl | hu
    · simp [isMantissaPart]
    · simp [isMantissaPart, hfraction u hu]

lemma isNumeralPart_of_mem_numeral (h : t ∈ numeral) : ∀ u ∈ t, isNumeralPart u := by
  obtain ⟨m, hm, e, he, rfl⟩ := h
  have hmantissa : ∀ u ∈ m, isNumeralPart u := by
    intro u hu
    have hu := isMantissaPart_of_mem_mantissa hm u hu
    simp only [isMantissaPart, Bool.or_eq_true] at hu
    rcases hu with hu | hu <;> simp [isNumeralPart, Numeral.continues, hu]
  rcases he with rfl | he
  · simpa using hmantissa
  obtain ⟨mark, sign, ds, hmark, hsign, -, -, hds, rfl⟩ := mem_exponent.mp he
  intro u hu
  simp only [List.mem_append, List.mem_cons] at hu
  rcases hu with hu | rfl | hu | hu
  · exact hmantissa u hu
  · simp [isNumeralPart, Numeral.continues, hmark]
  · simp [isNumeralPart, hsign u hu]
  · simp [isNumeralPart, Numeral.continues, hds u hu]

/-! ### Lengths -/

/-- The length of the mantissa at the front of a text. -/
def mantissaLength (s : Text) : Nat :=
  digitsLength s + fractionLength (s.drop (digitsLength s))

lemma numeralLength_eq (s : Text) :
    numeralLength s = mantissaLength s + exponentLength (s.drop (mantissaLength s)) := rfl

lemma digitsLength_append (ht : Digits t) : digitsLength (t ++ s) = t.length + digitsLength s := by
  rw [digitsLength, List.takeWhile_append_of_pos ht, List.length_append, digitsLength]

lemma mantissaLength_append (ht : Digits t) :
    mantissaLength (t ++ s) = t.length + mantissaLength s := by
  rw [mantissaLength, digitsLength_append ht, ← List.drop_drop, List.drop_left, mantissaLength,
    Nat.add_assoc]

lemma mantissaLength_point : mantissaLength (unit '.' :: s) = 1 + digitsLength s := by
  have hpoint : digitsLength (unit '.' :: s) = 0 := rfl
  rw [mantissaLength, hpoint, List.drop_zero, fractionLength, if_pos rfl, Nat.zero_add]

/-- No mantissa at the front of a text is longer than the one that is measured. -/
lemma length_le_mantissaLength (h : t ∈ mantissa) : t.length ≤ mantissaLength (t ++ s) := by
  rcases mem_mantissa.mp h with ⟨-, ht⟩ | ⟨whole, fraction, hwhole, hfraction, -, rfl⟩
  · rw [mantissaLength_append ht]
    omega
  · rw [List.append_assoc, mantissaLength_append hwhole, List.cons_append, mantissaLength_point,
      digitsLength_append hfraction, List.length_append, List.length_cons]
    omega

/-- An exponent is measured up to the end of the digits behind it. -/
lemma exponentLength_append (h : t ∈ exponent) :
    exponentLength (t ++ s) = t.length + digitsLength s := by
  obtain ⟨mark, sign, ds, hmark, hsign, hlength, hne, hds, rfl⟩ := mem_exponent.mp h
  have hcount : ((sign ++ (ds ++ s)).take 1).countP isSign = sign.length := by
    match sign, hlength with
    | [u], _ => simp [hsign u (by simp)]
    | [], _ =>
      obtain ⟨u, v, rfl⟩ := List.exists_cons_of_ne_nil hne
      have hu : isSign u = false :=
      not_isSign_of_isMantissaPart (isMantissaPart_of_isDigit (hds u (by simp)))
      simp [hu]
  have hpos : 0 < ds.length := List.length_pos_iff.mpr hne
  simp only [List.cons_append, List.append_assoc, exponentLength, if_pos hmark, hcount,
    List.drop_left, digitsLength_append hds, List.length_cons, List.length_append]
  rw [if_neg (by omega)]
  omega

/-- Digits and what they lack behind them. -/
lemma exists_digits (s : Text) : ∃ ds rest, s = ds ++ rest ∧ Digits ds ∧ Lacks isDigit rest ∧
    digitsLength s = ds.length := by
  refine ⟨s.takeWhile isDigit, s.dropWhile isDigit, List.takeWhile_append_dropWhile.symm,
    fun u hu => List.all_eq_true.mp List.all_takeWhile u hu, fun u hu => ?_, rfl⟩
  have hhead := List.head?_dropWhile_not isDigit s
  rw [Option.mem_def.mp hu] at hhead
  simpa using hhead

/-- A text starts with a digit, or with a point and a digit. -/
def StartsNumeral (s : Text) : Prop :=
  ∃ u v, s = u :: v ∧ (isDigit u || u == unit '.' && v.head?.any isDigit)

/-- In front of a text that starts like a numeral the measured mantissa is one. -/
lemma exists_mantissa (h : StartsNumeral s) :
    ∃ m rest, s = m ++ rest ∧ m ∈ mantissa ∧ mantissaLength s = m.length := by
  obtain ⟨whole, rest, rfl, hwhole, hlacks, -⟩ := exists_digits s
  rw [mantissaLength_append hwhole]
  by_cases hpoint : ∃ v, rest = unit '.' :: v
  · obtain ⟨v, rfl⟩ := hpoint
    obtain ⟨fraction, rest, rfl, hfraction, hlacks', hlength⟩ := exists_digits v
    refine ⟨whole ++ unit '.' :: fraction, rest, by simp,
      mem_mantissa.mpr (.inr ⟨whole, fraction, hwhole, hfraction, ?_, rfl⟩), ?_⟩
    · -- a text with neither starts with a point without a digit behind it
      intro hempty
      obtain ⟨rfl, rfl⟩ := List.append_eq_nil_iff.mp hempty
      obtain ⟨u, v, huv, hstart⟩ := h
      obtain ⟨rfl, rfl⟩ := List.cons.inj huv
      have hnone : rest.head?.any isDigit = false := by
        cases rest with
        | nil => rfl
        | cons u v => exact Lacks.cons_iff.mp hlacks'
      simp [hnone, isDigit] at hstart
      revert hstart
      decide
    · rw [mantissaLength_point, hlength, List.length_append, List.length_cons]
      omega
  · have hzero : mantissaLength rest = 0 := by
      cases rest with
      | nil => rfl
      | cons u v =>
        have hu : isDigit u = false := Lacks.cons_iff.mp hlacks
        have hne : u ≠ unit '.' := fun hu => hpoint ⟨v, by rw [hu]⟩
        simp [mantissaLength, digitsLength, hu, fractionLength, hne]
    refine ⟨whole, rest, rfl, mem_mantissa.mpr (.inl ⟨?_, hwhole⟩), by omega⟩
    rintro rfl
    obtain ⟨u, v, rfl, hstart⟩ := h
    have hu : isDigit u = false := Lacks.cons_iff.mp hlacks
    have hne : u ≠ unit '.' := fun hu => hpoint ⟨v, by rw [hu]⟩
    simp [hu, hne] at hstart

/-- The measured exponent is one, or there is none. -/
lemma exists_exponent (s : Text) :
    ∃ e rest, s = e ++ rest ∧ e ∈ 1 + exponent ∧ exponentLength s = e.length := by
  by_cases h : exponentLength s = 0
  · exact ⟨[], s, rfl, .inl rfl, h⟩
  cases s with
  | nil => exact absurd rfl h
  | cons mark v =>
    rw [exponentLength] at h
    split at h
    case isFalse => exact absurd rfl h
    rename_i hmark
    -- a sign is there or not
    obtain ⟨sign, w, rfl, hsign, hlength, hcount⟩ : ∃ sign w, v = sign ++ w ∧
        (∀ u ∈ sign, isSign u) ∧ sign.length ≤ 1 ∧ (v.take 1).countP isSign = sign.length := by
      cases v with
      | nil => exact ⟨[], [], rfl, by simp, by simp, rfl⟩
      | cons u w =>
        by_cases hu : isSign u
        · exact ⟨[u], w, rfl, by simpa using hu, by simp, by simp [hu]⟩
        · exact ⟨[], u :: w, rfl, by simp, by simp, by simp [hu]⟩
    obtain ⟨ds, rest, rfl, hds, hlacks, hdigits⟩ := exists_digits w
    simp only [hcount, List.drop_left, hdigits] at h
    have hne : ds ≠ [] := by
      rintro rfl
      exact h rfl
    have hmem : mark :: (sign ++ ds) ∈ exponent :=
      mem_exponent.mpr ⟨mark, sign, ds, hmark, hsign, hlength, hne, hds, rfl⟩
    refine ⟨mark :: (sign ++ ds), rest, by simp, .inr hmem, ?_⟩
    have hrest : digitsLength rest = 0 := by
      rw [digitsLength_append hds] at hdigits
      omega
    have hfound := exponentLength_append (s := rest) hmem
    rw [hrest, Nat.add_zero] at hfound
    simpa using hfound

lemma digitsLength_le (s : Text) : digitsLength s ≤ s.length :=
  (List.takeWhile_prefix isDigit).length_le

lemma fractionLength_le (s : Text) : fractionLength s ≤ s.length := by
  cases s with
  | nil => exact Nat.le_refl _
  | cons u v =>
    have hv := digitsLength_le v
    rw [fractionLength, List.length_cons]
    split <;> omega

lemma numeralLength_le (s : Text) : numeralLength s ≤ s.length := by
  have hwhole := digitsLength_le s
  have hfraction := fractionLength_le (s.drop (digitsLength s))
  obtain ⟨e, rest, hs, -, hexponent⟩ := exists_exponent (s.drop (mantissaLength s))
  have hlength := congrArg List.length hs
  simp only [List.length_append, List.length_drop] at hfraction hlength
  rw [numeralLength_eq, hexponent]
  rw [mantissaLength] at hlength ⊢
  omega

/-- The measured numeral is the longest numeral at the front of a text. -/
theorem isLongestPrefix_numeral (h : StartsNumeral s) :
    IsLongestPrefix numeral (s.take (numeralLength s)) s := by
  obtain ⟨m, rest, hs, hm, hmlength⟩ := exists_mantissa h
  obtain ⟨e, rest', hrest, he, helength⟩ := exists_exponent rest
  have hlength : numeralLength s = (m ++ e).length := by
    rw [numeralLength_eq, hmlength, hs, List.drop_left, helength, List.length_append]
  have htake : s.take (numeralLength s) = m ++ e := by
    rw [hlength, hs, hrest, ← List.append_assoc, List.take_left]
  refine ⟨htake ▸ Language.append_mem_mul hm he, List.take_prefix _ _, ?_⟩
  rintro _ ⟨m', hm', e', he', rfl⟩ ⟨rest'', hs'⟩
  rw [htake, ← hlength, numeralLength_eq]
  simp only [List.append_assoc] at hs'
  have hle : m'.length ≤ mantissaLength s := by
    rw [← hs']
    exact length_le_mantissaLength hm'
  rcases he' with rfl | he'
  · simp
    omega
  obtain ⟨mark, sign, ds, hmark, -, -, -, -, rfl⟩ := mem_exponent.mp he'
  rcases Nat.lt_or_eq_of_le hle with hlt | heq
  · -- the mark of the exponent would stand in the measured mantissa
    have hmem : mark ∈ m := by
      have hget : s[m'.length]? = some mark := by
        rw [← hs', List.getElem?_append_right (Nat.le_refl _)]
        simp
      rw [hs, List.getElem?_append_left (by omega)] at hget
      exact List.mem_of_getElem? hget
    have := isMantissaPart_of_mem_mantissa hm mark hmem
    rw [not_isMantissaPart_of_isExponentMark hmark] at this
    cases this
  · have hdrop : s.drop (mantissaLength s) = mark :: (sign ++ ds) ++ rest'' := by
      rw [← heq, ← hs', List.drop_left]
    rw [hdrop, exponentLength_append he', List.length_append]
    omega

/-- A numeral at the front of a text starts with a digit or with a point in front of one. -/
lemma startsNumeral_of_mem_numeral (ht : t ∈ numeral) (hts : t <+: s) : StartsNumeral s := by
  obtain ⟨m, hm, e, -, rfl⟩ := ht
  obtain ⟨rest, rfl⟩ := hts
  rcases mem_mantissa.mp hm with ⟨hne, hdigits⟩ | ⟨whole, fraction, hwhole, hfraction, hne, rfl⟩
  · obtain ⟨u, v, rfl⟩ := List.exists_cons_of_ne_nil hne
    exact ⟨u, _, rfl, by simp [hdigits u]⟩
  · cases whole with
    | cons u v => exact ⟨u, _, rfl, by simp [hwhole u]⟩
    | nil =>
      obtain ⟨u, v, rfl⟩ := List.exists_cons_of_ne_nil (l := fraction) (by simpa using hne)
      exact ⟨unit '.', _, rfl, by simp [hfraction u]⟩

/-! ### Identifiers -/

/-- The identifier that is read is the longest one at the front of a text. -/
theorem isLongestPrefix_identifier {u : CodeUnit} (hu : isIdentifierStart u) :
    IsLongestPrefix identifier (u :: s.takeWhile isIdentifierPart) (u :: s) := by
  have hparts : ∀ v ∈ s.takeWhile isIdentifierPart, isIdentifierPart v :=
    fun v hv => List.all_eq_true.mp List.all_takeWhile v hv
  refine ⟨mem_single_mul_star.mpr ⟨u, _, hu, hparts, rfl⟩,
    List.cons_prefix_cons.mpr ⟨rfl, List.takeWhile_prefix _⟩, ?_⟩
  rintro t ht ⟨rest, hs⟩
  obtain ⟨v, w, -, hw, rfl⟩ := mem_single_mul_star.mp ht
  obtain ⟨rfl, htail⟩ := List.cons.inj hs
  obtain rfl : w ++ rest = s := htail
  rw [List.takeWhile_append_of_pos hw]
  simp

/-! ### The number of a numeral -/

lemma isBlank_eq_false_of_isNumeralPart {u : CodeUnit} (h : isNumeralPart u) :
    isBlank u = false := by
  have hblanks : blanks.all (fun b => !isNumeralPart b) := by decide
  rw [← Bool.not_eq_true, isBlank, List.contains_iff_mem]
  intro hu
  have hpart := List.all_eq_true.mp hblanks u hu
  rw [h] at hpart
  cases hpart

lemma trim_eq_self (h : ∀ u ∈ t, isBlank u = false) : t.trim = t := by
  have hdrop {t : Text} (h : ∀ u ∈ t, isBlank u = false) : t.dropWhile isBlank = t := by
    cases t with
    | nil => rfl
    | cons u v => rw [List.dropWhile_cons, if_neg (by simp [h u])]
  rw [Text.trim, hdrop h, hdrop (by simpa using h), List.reverse_reverse]

lemma isSome_exponentValue? (h : t ∈ 1 + exponent) : (exponentValue? t).isSome := by
  rcases h with rfl | h
  · rfl
  obtain ⟨mark, sign, ds, hmark, hsign, hlength, hne, hds, rfl⟩ := mem_exponent.mp h
  have hdigits := hds.isDigits hne
  match sign, hlength with
  | [u], _ =>
    simp only [List.cons_append, List.nil_append, exponentValue?, if_pos hmark,
      if_pos (hsign u (by simp)), if_pos hdigits, Option.isSome_some]
  | [], _ =>
    obtain ⟨u, v, rfl⟩ := List.exists_cons_of_ne_nil hne
    have hu : isSign u = false :=
      not_isSign_of_isMantissaPart (isMantissaPart_of_isDigit (hds u (by simp)))
    simp [exponentValue?, hmark, hu, hdigits]

/-- A numeral is read as a decimal. -/
lemma isSome_ofText? (h : t ∈ numeral) : (Decimal.ofText? t).isSome := by
  obtain ⟨m, hm, e, he, rfl⟩ := h
  have hsome := isSome_exponentValue? he
  have hlacks : Lacks isMantissaPart e := by
    rcases he with rfl | he
    · exact .nil
    · obtain ⟨mark, sign, ds, hmark, -, -, -, -, rfl⟩ := mem_exponent.mp he
      exact Lacks.cons_iff.mpr (not_isMantissaPart_of_isExponentMark hmark)
  have hdigit : Lacks isDigit e := fun u hu => (Bool.or_eq_false_iff.mp (hlacks u hu)).1
  rcases mem_mantissa.mp hm with ⟨hne, hdigits⟩ | ⟨whole, fraction, hwhole, hfraction, hne, rfl⟩
  · have hsplit : splitFraction e = ([], e) := by
      cases e with
      | nil => rfl
      | cons u v =>
        have hu := (Bool.or_eq_false_iff.mp (Lacks.cons_iff.mp hlacks)).2
        exact if_neg (by simpa using hu)
    have hne' : m ++ [] ≠ [] := by simpa using hne
    simp only [Decimal.ofText?, hdigit.span_append hdigits, hsplit, if_neg hne', Option.isSome_map,
      hsome]
  · have hpoint : Lacks isDigit (unit '.' :: (fraction ++ e)) := Lacks.cons_iff.mpr (by decide)
    simp only [Decimal.ofText?, List.append_assoc, List.cons_append, hpoint.span_append hwhole,
      splitFraction, if_true, hdigit.span_append hfraction, if_neg hne, Option.isSome_map, hsome]

lemma mem_of_isSome_exponentValue? (h : (exponentValue? t).isSome) : t ∈ 1 + exponent := by
  match t with
  | [] => exact .inl rfl
  | [mark] =>
    rw [exponentValue?] at h
    split at h <;> cases h
  | mark :: u :: ds =>
    rw [exponentValue?] at h
    split at h
    case isFalse => cases h
    rename_i hmark
    refine .inr (mem_exponent.mpr ?_)
    split at h
    · rename_i hsign
      split at h
      case isFalse => cases h
      rename_i hdigits
      obtain ⟨hne, hds⟩ := isDigits_iff.mp hdigits
      exact ⟨mark, [u], ds, hmark, by simpa using hsign, by simp, hne, hds, rfl⟩
    · split at h
      case isFalse => cases h
      rename_i hdigits
      obtain ⟨hne, hds⟩ := isDigits_iff.mp hdigits
      exact ⟨mark, [], u :: ds, hmark, by simp, by simp, hne, hds, rfl⟩

/-- The texts that are read as decimals are the numerals. -/
theorem isSome_ofText?_iff (t : Text) : (Decimal.ofText? t).isSome ↔ t ∈ numeral := by
  refine ⟨fun h => ?_, isSome_ofText?⟩
  obtain ⟨whole, rest, rfl, hwhole, hlacks, -⟩ := exists_digits t
  rw [Decimal.ofText?, hlacks.span_append hwhole] at h
  simp only at h
  by_cases hpoint : ∃ v, rest = unit '.' :: v
  · obtain ⟨v, rfl⟩ := hpoint
    obtain ⟨fraction, rest, rfl, hfraction, hlacks', -⟩ := exists_digits v
    rw [splitFraction, if_pos rfl, hlacks'.span_append hfraction] at h
    split at h
    · cases h
    rename_i hne
    refine ⟨whole ++ unit '.' :: fraction, mem_mantissa.mpr ?_, rest, ?_, by simp⟩
    · exact .inr ⟨whole, fraction, hwhole, hfraction, hne, rfl⟩
    · exact mem_of_isSome_exponentValue? (by simpa using h)
  · have hsplit : splitFraction rest = ([], rest) := by
      cases rest with
      | nil => rfl
      | cons u v => exact if_neg fun hu => hpoint ⟨v, by rw [hu]⟩
    rw [hsplit] at h
    split at h
    · cases h
    rename_i hne
    refine ⟨whole, mem_mantissa.mpr (.inl ⟨by simpa using hne, hwhole⟩), rest, ?_, rfl⟩
    exact mem_of_isSome_exponentValue? (by simpa using h)

/-- The text of a numeral by its parts is a numeral. -/
lemma text_mem_numeral (n : Numeral) : n.text ∈ numeral := by
  rw [← isSome_ofText?_iff, n.ofText?_text]
  rfl

lemma isBlank_eq_false_of_all (h : t.all fun u => !isBlank u) : ∀ u ∈ t, isBlank u = false := by
  intro u hu
  simpa using List.all_eq_true.mp h u hu

/-- The text of a number has no blank in it. -/
lemma isBlank_eq_false_of_mem_written (v : Float) :
    ∀ u ∈ Number.written v, isBlank u = false := by
  have hdecimal (d : Decimal) : ∀ u ∈ d.written plain, isBlank u = false := by
    obtain ⟨n, htext, -⟩ := d.exists_numeral
    intro u hu
    rw [htext] at hu
    exact isBlank_eq_false_of_isNumeralPart
      (isNumeralPart_of_mem_numeral (text_mem_numeral n) u hu)
  rw [Number.written, Number.writtenIn]
  cases v.toModel.unpack with
  | notANumber => exact isBlank_eq_false_of_all (by decide)
  | infinity s | zero s => cases s <;> exact isBlank_eq_false_of_all (by decide)
  | finite s m q hpos =>
    cases s with
    | positive => exact hdecimal _
    | negative => exact List.forall_mem_cons.mpr ⟨by decide, hdecimal _⟩

/-- A numeral has no sign in front. -/
lemma ofSigned?_of_mem_numeral (h : t ∈ numeral) :
    Number.ofSigned? t = (Decimal.ofText? t).map Decimal.nearest := by
  obtain ⟨first, v, rfl, hstart⟩ := startsNumeral_of_mem_numeral h (List.prefix_refl t)
  have hsign : isSign first = false := by
    refine not_isSign_of_isMantissaPart ?_
    simp only [Bool.or_eq_true, Bool.and_eq_true] at hstart
    rcases hstart with hfirst | ⟨hfirst, -⟩ <;> simp [isMantissaPart, hfirst]
  obtain ⟨hplus, hminus⟩ := Bool.or_eq_false_iff.mp hsign
  rw [Number.ofSigned?, if_neg (by simpa using hminus), if_neg (by simpa using hplus)]

/-- A numeral behind at most one sign is what the lenient reading makes of it. -/
theorem ofCount_of_ofSigned? {w : Float} (hblank : ∀ u ∈ t, isBlank u = false)
    (h : Number.ofSigned? t = some w) : Number.ofCount t = w := by
  -- the names of infinity are not read as signed numerals
  have hne (s : String) (hs : Number.ofSigned? s = none) : t ≠ Text.ofString s := by
    rintro rfl
    rw [hs] at h
    cases h
  have hinfinity := hne "Infinity" rfl
  have hplus := hne "+Infinity" rfl
  have hminus := hne "-Infinity" rfl
  rw [Number.ofCount, trim_eq_self hblank]
  match t with
  | [] => cases h
  | [u] => simp only [h, Option.getD_some]
  | u :: v :: rest =>
    have hbase : (if u = unit '0' then Number.announcedBase? v else none) = none := by
      split
      case isFalse => rfl
      rename_i hu
      subst hu
      -- behind a zero without a sign there are only parts of numerals
      have hread : (Decimal.ofText? (unit '0' :: v :: rest)).map Decimal.nearest = some w := h
      obtain ⟨d, hd, -⟩ := Option.map_eq_some_iff.mp hread
      have hmem := (isSome_ofText?_iff _).mp (Option.isSome_of_eq_some hd)
      have hpart := isNumeralPart_of_mem_numeral hmem v (by simp)
      have hv (c : Char) (hc : isNumeralPart (unit c) = false) : v ≠ unit c := by
        rintro rfl
        rw [hc] at hpart
        cases hpart
      simp [Number.announcedBase?, hv 'x' rfl, hv 'X' rfl, hv 'o' rfl, hv 'O' rfl, hv 'b' rfl,
        hv 'B' rfl]
    simp only [hbase, hinfinity, hplus, hminus, h, Option.getD_some, or_self, if_false]

/-- The number of a numeral is what the lenient reading makes of it. -/
theorem ofCount_of_mem_numeral (h : t ∈ numeral) : Number.ofCount t = Number.ofNumeral t := by
  have hparts := isNumeralPart_of_mem_numeral h
  obtain ⟨d, hd⟩ := Option.isSome_iff_exists.mp (isSome_ofText? h)
  refine ofCount_of_ofSigned? (fun u hu => isBlank_eq_false_of_isNumeralPart (hparts u hu)) ?_
  rw [ofSigned?_of_mem_numeral h, Number.ofNumeral, hd, Option.map_some]

/-- A finite number other than negative zero is read back from its text. -/
lemma ofSigned?_written {v : Float} (hfinite : v.isFinite) (hzero : v ≠ Number.negativeZero) :
    Number.ofSigned? (Number.written v) = some v := by
  obtain ⟨n, ⟨htext, hvalue⟩ | ⟨htext, hvalue⟩⟩ := Number.written_cases hfinite hzero
  · rw [htext, ofSigned?_of_mem_numeral (text_mem_numeral n), n.ofText?_text, Option.map_some,
      ← hvalue, Number.ofNumeral, n.ofText?_text]
  · rw [htext, Number.ofSigned?, if_pos rfl, n.ofText?_text, Option.map_some, ← Number.neg_neg v,
      ← hvalue, Number.ofNumeral, n.ofText?_text]

/-- A numeral has a number. -/
theorem not_isNaN_of_mem_numeral (h : t ∈ numeral) : ¬ (Number.ofNumeral t).isNaN := by
  obtain ⟨d, hd⟩ := Option.isSome_iff_exists.mp (isSome_ofText? h)
  rw [Number.ofNumeral, hd]
  exact Number.not_isNaN_nearest d

end Lexicon

/-! ### The token at the front of a text -/

variable {first : CodeUnit} {rest s : Text} {kind : TokenKind} {more : Nat}

/-- No token is empty. -/
lemma TokenKind.nil_notMem_language (kind : TokenKind) : [] ∉ kind.language := by
  intro h
  cases kind with
  | number value =>
    obtain ⟨u, v, huv, -⟩ := Lexicon.startsNumeral_of_mem_numeral h (List.prefix_refl _)
    cases huv
  | identifier =>
    obtain ⟨u, v, -, -, huv⟩ := Lexicon.mem_single_mul_star.mp h
    cases huv
  | operator | leftParen | rightParen | comma => cases h

/-- Numerals and identifiers apart, a token is a single sign. -/
lemma TokenKind.kind_or_sign {t : Text} (h : t ∈ kind.language) :
    (∃ value, kind = .number value) ∨ kind = .identifier ∨
      ∃ c ∈ ['+', '-', '*', '/', '^', '(', ')', ','], t = [unit c] := by
  cases kind with
  | number value => exact .inl ⟨value, rfl⟩
  | identifier => exact .inr (.inl rfl)
  | operator op =>
    obtain ⟨c, hc, hsign⟩ : ∃ c ∈ ['+', '-', '*', '/', '^', '(', ')', ','], op.sign = unit c := by
      cases op with
      | add => exact ⟨'+', by simp, rfl⟩
      | sub => exact ⟨'-', by simp, rfl⟩
      | mul => exact ⟨'*', by simp, rfl⟩
      | div => exact ⟨'/', by simp, rfl⟩
      | pow => exact ⟨'^', by simp, rfl⟩
    exact .inr (.inr ⟨c, hc, hsign ▸ h⟩)
  | leftParen => exact .inr (.inr ⟨'(', by simp, h⟩)
  | rightParen => exact .inr (.inr ⟨')', by simp, h⟩)
  | comma => exact .inr (.inr ⟨',', by simp, h⟩)

/-- No token has a blank in it. -/
lemma TokenKind.isBlank_eq_false_of_mem {t : Text} (h : t ∈ kind.language) :
    ∀ u ∈ t, isBlank u = false := by
  rcases kind.kind_or_sign h with ⟨value, rfl⟩ | rfl | ⟨c, hc, rfl⟩
  · exact fun u hu =>
      Lexicon.isBlank_eq_false_of_isNumeralPart (Lexicon.isNumeralPart_of_mem_numeral h u hu)
  · obtain ⟨u, v, hu, hv, rfl⟩ := Lexicon.mem_single_mul_star.mp h
    refine List.forall_mem_cons.mpr ⟨?_, fun w hw => ?_⟩
    · exact TokenStream.isBlank_eq_false_of_isIdentifierPart
        (TokenStream.isIdentifierPart_of_isIdentifierStart hu)
    · exact TokenStream.isBlank_eq_false_of_isIdentifierPart (hv w hw)
  · have hsign : isBlank (unit c) = false := by
      simp only [List.mem_cons, List.not_mem_nil, or_false] at hc
      rcases hc with rfl | rfl | rfl | rfl | rfl | rfl | rfl | rfl <;> decide
    exact fun u hu => List.mem_singleton.mp hu ▸ hsign

lemma isLongestPrefix_singleton (u : CodeUnit) (s : Text) :
    IsLongestPrefix {[u]} [u] (u :: s) := by
  refine ⟨rfl, ⟨s, rfl⟩, ?_⟩
  rintro _ rfl -
  exact Nat.le_refl _

/-- What has the length of a numeral, counted without its first code unit. -/
lemma take_numeralLength
    (h : IsLongestPrefix Lexicon.numeral ((first :: rest).take (numeralLength (first :: rest)))
      (first :: rest)) :
    first :: rest.take (numeralLength (first :: rest) - 1)
      = (first :: rest).take (numeralLength (first :: rest)) := by
  cases hlength : numeralLength (first :: rest) with
  | succ n => rw [Nat.add_sub_cancel, List.take_succ_cons]
  | zero =>
    have hmem := h.mem
    rw [hlength, List.take_zero] at hmem
    exact absurd hmem (TokenKind.number 0).nil_notMem_language

/-- The token at the front of a text is a lexeme of the text. -/
theorem isLexeme_of_lexeme? (h : lexeme? first rest = some (kind, more)) :
    IsLexeme kind (first :: rest.take more) (first :: rest) ∧ more ≤ rest.length := by
  rw [lexeme?] at h
  split at h
  · rename_i hstart
    cases h
    have hlongest := Lexicon.isLongestPrefix_numeral ⟨first, rest, rfl, hstart⟩
    have hlength := Lexicon.numeralLength_le (first :: rest)
    rw [take_numeralLength hlongest]
    refine ⟨⟨hlongest, ?_⟩, ?_⟩
    · rintro _ ⟨⟩
      rfl
    · rw [List.length_cons] at hlength
      omega
  split at h
  · rename_i hstart
    cases h
    have hprefix := List.takeWhile_prefix isIdentifierPart (l := rest)
    rw [← List.prefix_iff_eq_take.mp hprefix]
    exact ⟨⟨Lexicon.isLongestPrefix_identifier hstart, fun _ h => by cases h⟩, hprefix.length_le⟩
  -- the other kinds have one code unit
  split at h
  · rename_i op hop
    cases h
    rw [List.take_zero, ← Operator.sign_of_ofSign? hop]
    exact ⟨⟨isLongestPrefix_singleton _ _, fun _ h => by cases h⟩, Nat.zero_le _⟩
  split at h
  · rename_i hfirst
    cases h
    exact ⟨⟨hfirst ▸ isLongestPrefix_singleton _ _, fun _ h => by cases h⟩, Nat.zero_le _⟩
  split at h
  · rename_i hfirst
    cases h
    exact ⟨⟨hfirst ▸ isLongestPrefix_singleton _ _, fun _ h => by cases h⟩, Nat.zero_le _⟩
  split at h
  · rename_i hfirst
    cases h
    exact ⟨⟨hfirst ▸ isLongestPrefix_singleton _ _, fun _ h => by cases h⟩, Nat.zero_le _⟩
  · cases h

/-- Where no token is found, none stands. -/
theorem not_startsToken_of_lexeme? (h : lexeme? first rest = none) :
    ¬ StartsToken (first :: rest) := by
  rintro ⟨kind, t, ht, hfront⟩
  rw [lexeme?] at h
  split at h
  · cases h
  rename_i hnumeral
  split at h
  · cases h
  rename_i hidentifier
  split at h
  · cases h
  rename_i hop
  split at h
  · cases h
  rename_i hleft
  split at h
  · cases h
  rename_i hright
  split at h
  · cases h
  rename_i hcomma
  have hsingle {u : CodeUnit} (ht : t = [u]) : first = u := by
    subst ht
    exact (List.cons_prefix_cons.mp hfront).1.symm
  cases kind with
  | number value =>
    obtain ⟨u, v, huv, hstart⟩ := Lexicon.startsNumeral_of_mem_numeral ht hfront
    cases huv
    exact hnumeral hstart
  | identifier =>
    obtain ⟨u, v, hu, -, rfl⟩ := Lexicon.mem_single_mul_star.mp ht
    exact hidentifier ((List.cons_prefix_cons.mp hfront).1 ▸ hu)
  | operator op =>
    obtain rfl := hsingle ht
    exact hop op (Operator.ofSign?_sign op)
  | leftParen => exact hleft (hsingle ht)
  | rightParen => exact hright (hsingle ht)
  | comma => exact hcomma (hsingle ht)

end FunctionPlot
