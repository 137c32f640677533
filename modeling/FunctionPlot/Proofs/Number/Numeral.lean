/-
# Numerals by their parts

A `Numeral` is given by its digits in front of the point, those behind it and its exponent.  Its
text is read as one decimal (`Numeral.ofText?_text`), and in front of a text that does not continue
it, it is found in full (`Numeral.numeralLength_text`).  Every written decimal is a numeral of the
same value (`Decimal.exists_numeral`).
-/
import FunctionPlot.Formula.Token
import FunctionPlot.Number.Written
import Mathlib.Algebra.Field.Rat
import Mathlib.Algebra.Order.Field.Basic
import Mathlib.Algebra.Order.Ring.Rat
import Mathlib.Data.List.TakeDrop
import Mathlib.Tactic.NormNum
import Mathlib.Tactic.Ring

namespace FunctionPlot

/-- A text of digits only. -/
def Digits (t : Text) : Prop := ∀ u ∈ t, isDigit u

/-- A text that does not start with a code unit of some kind. -/
def Lacks (p : CodeUnit → Bool) (rest : Text) : Prop := ∀ u ∈ rest.head?, p u = false

lemma isDigit_unit {c : Char} (h : c.isDigit) : isDigit (unit c) := by
  have hc : 48 ≤ c.toNat ∧ c.toNat ≤ 57 := by
    simpa [Char.isDigit, UInt32.le_iff_toNat_le] using h
  have hu := Text.toNat_unit (c := c) (by omega)
  have h0 : (unit '0').toNat = 48 := rfl
  have h9 : (unit '9').toNat = 57 := rfl
  simp only [isDigit, Bool.and_eq_true, decide_eq_true_eq, UInt16.le_iff_toNat_le]
  omega

lemma digitValue_unit {c : Char} (h : c.isDigit) : digitValue (unit c) = c.toNat - '0'.toNat := by
  have hc : 48 ≤ c.toNat ∧ c.toNat ≤ 57 := by
    simpa [Char.isDigit, UInt32.le_iff_toNat_le] using h
  rw [digitValue, Text.toNat_unit (by omega)]
  rfl

namespace Lacks

variable {p : CodeUnit → Bool} {digits rest : Text}

@[simp] lemma nil : Lacks p [] := by simp [Lacks]

@[simp] lemma cons_iff {u : CodeUnit} : Lacks p (u :: rest) ↔ p u = false := by simp [Lacks]

lemma takeWhile_append (hrest : Lacks p rest) (h : ∀ u ∈ digits, p u) :
    (digits ++ rest).takeWhile p = digits := by
  rw [List.takeWhile_append_of_pos h]
  cases rest with
  | nil => simp
  | cons u rest => simp [cons_iff.mp hrest]

lemma dropWhile_append (hrest : Lacks p rest) (h : ∀ u ∈ digits, p u) :
    (digits ++ rest).dropWhile p = rest := by
  rw [List.dropWhile_append_of_pos h]
  cases rest with
  | nil => simp
  | cons u rest => simp [cons_iff.mp hrest]

lemma span_append (hrest : Lacks p rest) (h : ∀ u ∈ digits, p u) :
    (digits ++ rest).span p = (digits, rest) := by
  rw [List.span_eq_takeWhile_dropWhile, hrest.takeWhile_append h, hrest.dropWhile_append h]

end Lacks

lemma isDigits_iff {t : Text} : isDigits t ↔ t ≠ [] ∧ Digits t := by
  simp only [isDigits, Bool.and_eq_true, Bool.not_eq_true', List.isEmpty_eq_false_iff,
    List.all_eq_true, Digits]

namespace Digits

variable {digits s t : Text}

@[simp] lemma nil : Digits [] := by simp [Digits]

lemma append (hs : Digits s) (ht : Digits t) : Digits (s ++ t) := by
  intro u hu
  rcases List.mem_append.mp hu with hu | hu
  · exact hs u hu
  · exact ht u hu

lemma take (h : Digits t) (n : Nat) : Digits (t.take n) := fun u hu => h u (List.mem_of_mem_take hu)

lemma drop (h : Digits t) (n : Nat) : Digits (t.drop n) := fun u hu => h u (List.mem_of_mem_drop hu)

lemma replicate (n : Nat) : Digits (List.replicate n (unit '0')) := by
  intro u hu
  rw [List.eq_of_mem_replicate hu]
  decide

lemma ofNat (n : Nat) : Digits (Text.ofNat n) := by
  intro u hu
  obtain ⟨c, hc, rfl⟩ := List.mem_map.mp hu
  exact isDigit_unit (Nat.isDigit_of_mem_toDigits (by decide) (by decide) hc)

lemma isDigits (h : Digits t) (hne : t ≠ []) : FunctionPlot.isDigits t :=
  isDigits_iff.mpr ⟨hne, h⟩

end Digits

lemma ofNat_ne_nil (n : Nat) : Text.ofNat n ≠ [] := by
  simp [Text.ofNat]

lemma ofDigits_append (s t : Text) :
    ofDigits (s ++ t) = ofDigits s * 10 ^ t.length + ofDigits t := by
  have hfoldl (n : Nat) : t.foldl (fun n u => 10 * n + digitValue u) n
      = n * 10 ^ t.length + t.foldl (fun n u => 10 * n + digitValue u) 0 := by
    induction t generalizing n with
    | nil => simp
    | cons u t ih =>
      rw [List.foldl_cons, ih, List.foldl_cons, ih (10 * 0 + digitValue u), List.length_cons]
      ring
  rw [ofDigits, List.foldl_append, hfoldl]
  rfl

lemma ofDigits_replicate (n : Nat) : ofDigits (List.replicate n (unit '0')) = 0 := by
  induction n with
  | zero => rfl
  | succ n ih =>
    have hzero : ofDigits [unit '0'] = 0 := rfl
    rw [List.replicate_succ, ← List.singleton_append, ofDigits_append, ih, hzero, Nat.zero_mul]

lemma ofDigits_ofNat (n : Nat) : ofDigits (Text.ofNat n) = n := by
  have hmap (l : List Char) (hl : ∀ c ∈ l, c.isDigit) (k : Nat) :
      (l.map unit).foldl (fun n u => 10 * n + digitValue u) k = Nat.ofDigitChars 10 l k := by
    induction l generalizing k with
    | nil => simp
    | cons c l ih =>
      rw [List.map_cons, List.foldl_cons, ih (fun c hc => hl c (List.mem_cons_of_mem _ hc)),
        Nat.ofDigitChars_cons, digitValue_unit (hl c List.mem_cons_self)]
  have hchars (c : Char) (hc : c ∈ Nat.toDigits 10 n) : c.isDigit :=
    Nat.isDigit_of_mem_toDigits (by decide) (by decide) hc
  rw [ofDigits, Text.ofNat, hmap _ hchars, Nat.ofDigitChars_toDigits (by decide) (by decide)]

/-- The exponent of a numeral. -/
structure NumeralExponent where
  mark : CodeUnit
  sign : CodeUnit
  digits : Text
  isExponentMark_mark : isExponentMark mark
  isSign_sign : isSign sign
  digits_ne_nil : digits ≠ []
  digits_digits : Digits digits

/-- The parts of a numeral that starts with a digit. -/
structure Numeral where
  whole : Text
  fraction? : Option Text
  exponent? : Option NumeralExponent
  whole_ne_nil : whole ≠ []
  digits_whole : Digits whole
  digits_fraction : ∀ fraction ∈ fraction?, Digits fraction

namespace NumeralExponent

/-- The text of an exponent. -/
def text (x : NumeralExponent) : Text := x.mark :: x.sign :: x.digits

/-- The value of an exponent. -/
def value (x : NumeralExponent) : Int :=
  if x.sign == unit '-' then -(ofDigits x.digits : Int) else ofDigits x.digits

lemma not_isDigit_of_isExponentMark {u : CodeUnit} (h : isExponentMark u) : isDigit u = false := by
  simp only [isExponentMark, Bool.or_eq_true, beq_iff_eq] at h
  rcases h with rfl | rfl <;> decide

lemma ne_point_of_isExponentMark {u : CodeUnit} (h : isExponentMark u) : u ≠ unit '.' := by
  rintro rfl
  revert h
  decide

lemma exponentValue?_text (x : NumeralExponent) : exponentValue? x.text = some x.value := by
  rw [text, exponentValue?, if_pos x.isExponentMark_mark, if_pos x.isSign_sign,
    if_pos (x.digits_digits.isDigits x.digits_ne_nil)]
  rfl

lemma exponentLength_text (x : NumeralExponent) {rest : Text} (h : Lacks isDigit rest) :
    exponentLength (x.text ++ rest) = x.text.length := by
  have hlength : x.digits.length ≠ 0 := by simpa using x.digits_ne_nil
  simp only [text, List.cons_append, exponentLength, if_pos x.isExponentMark_mark]
  simp only [List.take_succ_cons, List.take_zero, List.countP_cons, List.countP_nil, x.isSign_sign,
    if_true, List.drop_succ_cons, List.drop_zero, digitsLength, h.takeWhile_append x.digits_digits,
    Nat.zero_add, if_neg hlength, List.length_cons]
  omega

end NumeralExponent

namespace Numeral

/-- The digits behind the point. -/
def fraction (n : Numeral) : Text := n.fraction?.getD []

/-- The text of the fraction, its point included. -/
def fractionText (n : Numeral) : Text := n.fraction?.elim [] (unit '.' :: ·)

/-- The text of the exponent. -/
def exponentText (n : Numeral) : Text := n.exponent?.elim [] NumeralExponent.text

/-- The text of a numeral. -/
def text (n : Numeral) : Text := n.whole ++ (n.fractionText ++ n.exponentText)

/-- The decimal of a numeral. -/
def decimal (n : Numeral) : Decimal :=
  ⟨ofDigits (n.whole ++ n.fraction),
    n.exponent?.elim 0 NumeralExponent.value - n.fraction.length⟩

/-- What does not stand behind a numeral because it would continue it. -/
def continues (u : CodeUnit) : Bool := isDigit u || u == unit '.' || isExponentMark u

variable {rest : Text}

lemma lacks_isDigit (h : Lacks continues rest) : Lacks isDigit rest := by
  intro u hu
  have := h u hu
  simp only [continues, Bool.or_eq_false_iff] at this
  exact this.1.1

lemma lacks_exponentText (n : Numeral) (h : Lacks isDigit rest) :
    Lacks isDigit (n.exponentText ++ rest) := by
  rw [exponentText]
  cases n.exponent? with
  | none => simpa using h
  | some x => simpa [NumeralExponent.text] using
      NumeralExponent.not_isDigit_of_isExponentMark x.isExponentMark_mark

lemma lacks_tail (n : Numeral) (h : Lacks isDigit rest) :
    Lacks isDigit (n.fractionText ++ (n.exponentText ++ rest)) := by
  rw [fractionText]
  cases n.fraction? with
  | none => simpa using n.lacks_exponentText h
  | some fraction =>
    simp only [Option.elim_some, List.cons_append, Lacks.cons_iff]
    decide

lemma splitFraction_tail (n : Numeral) :
    splitFraction (n.fractionText ++ n.exponentText) = (n.fraction, n.exponentText) := by
  have hlacks := n.lacks_exponentText Lacks.nil
  rw [List.append_nil] at hlacks
  have hdigits := n.digits_fraction
  rw [fractionText, fraction]
  cases hfraction : n.fraction? with
  | some fraction =>
    simp only [Option.elim_some, List.cons_append, splitFraction, if_true, Option.getD_some]
    exact hlacks.span_append (hdigits fraction hfraction)
  | none =>
    simp only [Option.elim_none, List.nil_append, Option.getD_none]
    rw [exponentText]
    cases n.exponent? with
    | none => rfl
    | some x =>
      exact if_neg (NumeralExponent.ne_point_of_isExponentMark x.isExponentMark_mark)

lemma exponentValue?_exponentText (n : Numeral) :
    exponentValue? n.exponentText = some (n.exponent?.elim 0 NumeralExponent.value) := by
  rw [exponentText]
  cases n.exponent? with
  | none => rfl
  | some x => exact x.exponentValue?_text

/-- The text of a numeral is read as its decimal. -/
theorem ofText?_text (n : Numeral) : Decimal.ofText? n.text = some n.decimal := by
  have hlacks := n.lacks_tail Lacks.nil
  rw [List.append_nil] at hlacks
  have hne : ¬ n.whole ++ n.fraction = [] := by simp [n.whole_ne_nil]
  simp only [Decimal.ofText?, text, hlacks.span_append n.digits_whole, splitFraction_tail,
    if_neg hne, exponentValue?_exponentText, Option.map_some]
  rfl

lemma fractionLength_tail (n : Numeral) (h : Lacks continues rest) :
    fractionLength (n.fractionText ++ (n.exponentText ++ rest)) = n.fractionText.length := by
  have hlacks := n.lacks_exponentText (lacks_isDigit h)
  have hdigits := n.digits_fraction
  rw [fractionText]
  cases hfraction : n.fraction? with
  | some fraction =>
    simp only [Option.elim_some, List.cons_append, fractionLength, if_true, List.length_cons]
    rw [digitsLength, hlacks.takeWhile_append (hdigits fraction hfraction), Nat.add_comm]
  | none =>
    simp only [Option.elim_none, List.nil_append, List.length_nil]
    rw [exponentText]
    cases n.exponent? with
    | some x => exact if_neg (NumeralExponent.ne_point_of_isExponentMark x.isExponentMark_mark)
    | none =>
      cases rest with
      | nil => rfl
      | cons u rest =>
        refine if_neg ?_
        rintro rfl
        exact absurd (Lacks.cons_iff.mp h) (by decide)

lemma exponentLength_exponentText (n : Numeral) (h : Lacks continues rest) :
    exponentLength (n.exponentText ++ rest) = n.exponentText.length := by
  rw [exponentText]
  cases n.exponent? with
  | some x => exact x.exponentLength_text (lacks_isDigit h)
  | none =>
    cases rest with
    | nil => rfl
    | cons u rest =>
      refine if_neg fun hmark => ?_
      have hcontinues := Lacks.cons_iff.mp h
      simp [continues, hmark] at hcontinues

/-- The text of a numeral is found in full in front of a text that does not continue it. -/
theorem numeralLength_text (n : Numeral) (h : Lacks continues rest) :
    numeralLength (n.text ++ rest) = n.text.length := by
  have hwhole : digitsLength (n.text ++ rest) = n.whole.length := by
    rw [text, digitsLength, List.append_assoc, List.append_assoc,
      (n.lacks_tail (lacks_isDigit h)).takeWhile_append n.digits_whole]
  have hdrop : (n.text ++ rest).drop n.whole.length
      = n.fractionText ++ (n.exponentText ++ rest) := by
    rw [text, List.append_assoc, List.append_assoc, List.drop_left]
  have hdrop' : (n.text ++ rest).drop (n.whole.length + n.fractionText.length)
      = n.exponentText ++ rest := by
    rw [← List.drop_drop, hdrop, List.drop_left]
  simp only [numeralLength, hwhole, hdrop, n.fractionLength_tail h, hdrop',
    n.exponentLength_exponentText h]
  rw [text, List.length_append, List.length_append]
  omega

/-- A numeral starts with a digit. -/
lemma exists_head (n : Numeral) : ∃ u t, n.text = u :: t ∧ isDigit u := by
  obtain ⟨u, t, ht⟩ := List.exists_cons_of_ne_nil n.whole_ne_nil
  exact ⟨u, _, by rw [text, ht, List.cons_append], n.digits_whole u (by simp [ht])⟩

end Numeral

namespace Decimal

/-- Every integer is the exponent of a numeral. -/
lemma exists_exponent (e : Int) : ∃ x : NumeralExponent, x.text = plain.exponentMark
    ++ (if e < 0 then [unit '-'] else plain.exponentPlus) ++ Text.ofNat e.natAbs ∧ x.value = e := by
  have hmark : plain.exponentMark = [unit 'e'] := rfl
  have hplus : plain.exponentPlus = [unit '+'] := rfl
  rw [hmark, hplus]
  split
  · refine ⟨⟨unit 'e', unit '-', Text.ofNat e.natAbs, by decide, by decide, ofNat_ne_nil _,
      .ofNat _⟩, rfl, ?_⟩
    rw [NumeralExponent.value, if_pos (beq_self_eq_true _), ofDigits_ofNat]
    omega
  · refine ⟨⟨unit 'e', unit '+', Text.ofNat e.natAbs, by decide, by decide, ofNat_ne_nil _,
      .ofNat _⟩, rfl, ?_⟩
    have hsign : ¬ (unit '+' == unit '-') = true := by decide
    rw [NumeralExponent.value, if_neg hsign, ofDigits_ofNat]
    omega

/-! ### The styles in which decimals are written

The digits of a decimal are given as a text of their own. -/

section Styles

variable {d : Decimal} {digits : Text}

/-- Zeros behind the digits. -/
lemma exists_numeral_padded (hdigits : Digits digits) (hne : digits ≠ [])
    (hvalue : ofDigits digits = d.digits) (hexponent : 0 ≤ d.exponent) :
    ∃ n : Numeral, digits ++ List.replicate d.exponent.toNat (unit '0') = n.text ∧
      n.decimal.value = d.value := by
  obtain ⟨k, hk⟩ := Int.eq_ofNat_of_zero_le hexponent
  refine ⟨⟨digits ++ List.replicate d.exponent.toNat (unit '0'), none, none, by simp [hne],
    hdigits.append (.replicate _), by simp⟩, ?_, ?_⟩
  · simp [Numeral.text, Numeral.fractionText, Numeral.exponentText]
  · simp [Numeral.decimal, Numeral.fraction, value, ofDigits_append, ofDigits_replicate, hvalue,
      hk]

/-- A point between the digits. -/
lemma exists_numeral_pointed (hdigits : Digits digits) (hne : digits ≠ [])
    (hvalue : ofDigits digits = d.digits) (hexponent : d.exponent < 0)
    (hplace : 0 < digits.length + d.exponent) :
    ∃ n : Numeral, digits.take (digits.length + d.exponent).toNat
        ++ unit '.' :: digits.drop (digits.length + d.exponent).toNat = n.text ∧
      n.decimal.value = d.value := by
  refine ⟨⟨digits.take (digits.length + d.exponent).toNat,
    some (digits.drop (digits.length + d.exponent).toNat), none, ?_, hdigits.take _, ?_⟩, ?_, ?_⟩
  · simp only [ne_eq, List.take_eq_nil_iff, hne, or_false]
    omega
  · simpa using hdigits.drop _
  · simp [Numeral.text, Numeral.fractionText, Numeral.exponentText]
  · have hfraction : (digits.drop (digits.length + d.exponent).toNat).length
        = (-d.exponent).toNat := by
      rw [List.length_drop]
      omega
    have hplaces : (0 : Int) - ((-d.exponent).toNat : Int) = d.exponent := by omega
    simp only [Numeral.decimal, Numeral.fraction, Option.getD_some, List.take_append_drop, hvalue,
      hfraction, Option.elim_none, hplaces]

/-- A point and zeros in front of the digits. -/
lemma exists_numeral_leading (hdigits : Digits digits) (hvalue : ofDigits digits = d.digits)
    (hexponent : d.exponent < 0) (hplace : digits.length + d.exponent ≤ 0) :
    ∃ n : Numeral,
      "0." ++ List.replicate (-(digits.length + d.exponent)).toNat (unit '0') ++ digits = n.text ∧
      n.decimal.value = d.value := by
  obtain ⟨fraction, hf⟩ : ∃ fraction, fraction
    = List.replicate (-(digits.length + d.exponent)).toNat (unit '0') ++ digits := ⟨_, rfl⟩
  have hdigits' : Digits fraction := hf ▸ (Digits.replicate _).append hdigits
  refine ⟨⟨[unit '0'], some fraction, none, by simp, .replicate 1, by simpa using hdigits'⟩, ?_, ?_⟩
  · rw [List.append_assoc, ← hf]
    simp [Numeral.text, Numeral.fractionText, Numeral.exponentText]
    rfl
  · have hlength : fraction.length = (-d.exponent).toNat := by
      rw [hf, List.length_append, List.length_replicate]
      omega
    have hplaces : (0 : Int) - ((-d.exponent).toNat : Int) = d.exponent := by omega
    have hzero : ofDigits [unit '0'] = 0 := rfl
    have hfraction : ofDigits fraction = d.digits := by
      rw [hf, ofDigits_append, ofDigits_replicate, hvalue, Nat.zero_mul, Nat.zero_add]
    simp only [Numeral.decimal, Numeral.fraction, Option.getD_some, ofDigits_append, hzero,
      hfraction, hlength, Option.elim_none, hplaces, Nat.zero_mul, Nat.zero_add]

/-- A point behind the first digit and an exponent. -/
lemma exists_numeral_scientific (hdigits : Digits digits) (hne : digits ≠ [])
    (hvalue : ofDigits digits = d.digits) :
    ∃ n : Numeral, scientific plain digits (digits.length + d.exponent) = n.text ∧
      n.decimal.value = d.value := by
  have hlength : 0 < digits.length := List.length_pos_iff.mpr hne
  obtain ⟨x, htext, hx⟩ := exists_exponent (digits.length + d.exponent - 1)
  refine ⟨⟨digits.take 1, if digits.length ≤ 1 then none else some (digits.drop 1), some x, ?_,
    hdigits.take 1, ?_⟩, ?_, ?_⟩
  · simp [hne]
  · intro fraction hfraction
    split at hfraction
    · cases hfraction
    · cases hfraction
      exact hdigits.drop 1
  · simp only [scientific, Numeral.text, Numeral.fractionText, Numeral.exponentText,
      Option.elim_some, htext, List.append_assoc]
    split <;> rfl
  · have hfraction : (if digits.length ≤ 1 then none else some (digits.drop 1)).getD []
        = digits.drop 1 := by
      split
      · rename_i hone
        rw [Option.getD_none, List.drop_eq_nil_of_le hone]
      · rfl
    have hexponent :
        (digits.length + d.exponent - 1 - (digits.drop 1).length : Int) = d.exponent := by
      rw [List.length_drop]
      omega
    simp only [Numeral.decimal, Numeral.fraction, hfraction, List.take_append_drop, hvalue,
      Option.elim_some, hx, hexponent]

end Styles

/-- A written decimal is a numeral of the same value. -/
theorem exists_numeral (d : Decimal) :
    ∃ n : Numeral, d.written plain = n.text ∧ n.decimal.value = d.value := by
  have hdigits := Digits.ofNat d.digits
  have hne := ofNat_ne_nil d.digits
  have hvalue := ofDigits_ofNat d.digits
  rw [written]
  generalize Text.ofNat d.digits = digits at hdigits hne hvalue ⊢
  split
  · split
    · rename_i hexponent
      exact exists_numeral_padded hdigits hne hvalue hexponent
    split
    · rename_i hexponent hplace
      exact exists_numeral_pointed hdigits hne hvalue (Int.not_le.mp hexponent) hplace
    · rename_i hexponent hplace
      exact exists_numeral_leading hdigits hvalue (Int.not_le.mp hexponent) (Int.not_lt.mp hplace)
  · exact exists_numeral_scientific hdigits hne hvalue

end Decimal

end FunctionPlot
