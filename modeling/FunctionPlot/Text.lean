/-
# Texts as sequences of UTF-16 code units

Every offset, column and length of this library counts UTF-16 code units, and an error may
single out one half of a surrogate pair.  A text is therefore the list of its code units, and
`String` appears only where literals are written and where a program meets the outside world.

The main statements are `Text.ofString_append`, by which literals may be cut anywhere, and
`Text.toString_ofString`, by which nothing is lost on the way into a text and back.
-/

namespace FunctionPlot

/-- A UTF-16 code unit. -/
abbrev CodeUnit := UInt16

/-- A text is the sequence of its UTF-16 code units; surrogates may stand unpaired. -/
abbrev Text := List CodeUnit

/-- The code unit of a character below U+10000, such as every character of ASCII. -/
def unit (c : Char) : CodeUnit := c.toNat.toUInt16

namespace Text

/-- The code units of a character: one below U+10000, a surrogate pair from there on. -/
def ofChar (c : Char) : Text :=
  if c.toNat < 0x10000 then [unit c]
  else
    let offset := c.toNat - 0x10000
    [(0xD800 + offset / 0x400).toUInt16, (0xDC00 + offset % 0x400).toUInt16]

/-- The code units of a string. -/
def ofString (s : String) : Text := s.toList.flatMap ofChar

instance : Coe String Text := ⟨ofString⟩

/-- The first half of a surrogate pair. -/
def isHighSurrogate (u : CodeUnit) : Bool := 0xD800 ≤ u && u < 0xDC00

/-- The second half of a surrogate pair. -/
def isLowSurrogate (u : CodeUnit) : Bool := 0xDC00 ≤ u && u < 0xE000

/-- The character that a surrogate pair stands for. -/
def ofPair (high low : CodeUnit) : Char :=
  Char.ofNat (0x10000 + (high.toNat - 0xD800) * 0x400 + (low.toNat - 0xDC00))

/-- The character of a single code unit; an unpaired surrogate becomes U+FFFD, the
replacement character. -/
def ofSingle (u : CodeUnit) : Char :=
  if isHighSurrogate u || isLowSurrogate u then Char.ofNat 0xFFFD else Char.ofNat u.toNat

/-- The characters of a text. -/
def toChars : Text → List Char
  | [] => []
  | [u] => [ofSingle u]
  | u :: v :: rest =>
    if isHighSurrogate u && isLowSurrogate v then ofPair u v :: toChars rest
    else ofSingle u :: toChars (v :: rest)

/-- The string of a text, for printing. -/
def toString (t : Text) : String := String.ofList (toChars t)

/-- The decimal digits of a natural number. -/
def ofNat (n : Nat) : Text := (Nat.toDigits 10 n).map unit

/-- The decimal digits of an integer, after a minus sign if it is negative. -/
def ofInt : Int → Text
  | .ofNat n => ofNat n
  | .negSucc n => unit '-' :: ofNat (n + 1)

/-- The texts of a list, with `separator` between neighbours. -/
def joined (separator : Text) (texts : List Text) : Text := separator.intercalate texts

/-- The lines of a text: the pieces between its line feeds. -/
def lines (t : Text) : List Text := t.splitOn (unit '\n')

theorem ofString_append (s t : String) : ofString (s ++ t) = ofString s ++ ofString t := by
  simp [ofString, String.toList_append, List.flatMap_append]

theorem joined_cons_cons (separator t u : Text) (ts : List Text) :
    joined separator (t :: u :: ts) = t ++ (separator ++ joined separator (u :: ts)) := by
  rw [joined, joined, List.intercalate_cons_cons, List.append_assoc]

theorem toNat_unit {c : Char} (h : c.toNat < 0x10000) : (unit c).toNat = c.toNat := by
  simp [unit]; omega

theorem isHighSurrogate_iff {u : CodeUnit} :
    isHighSurrogate u ↔ 0xD800 ≤ u.toNat ∧ u.toNat < 0xDC00 := by
  simp [isHighSurrogate, UInt16.le_iff_toNat_le, UInt16.lt_iff_toNat_lt]

theorem isLowSurrogate_iff {u : CodeUnit} :
    isLowSurrogate u ↔ 0xDC00 ≤ u.toNat ∧ u.toNat < 0xE000 := by
  simp [isLowSurrogate, UInt16.le_iff_toNat_le, UInt16.lt_iff_toNat_lt]

/-- A code unit that is a character of its own is read as that character. -/
theorem toChars_unit_cons {c : Char} (h : c.toNat < 0x10000) (t : Text) :
    toChars (unit c :: t) = c :: toChars t := by
  have hu := toNat_unit h
  have hc : c.toNat < 0xD800 ∨ 0xDFFF < c.toNat ∧ c.toNat < 0x110000 := c.valid
  have hh : isHighSurrogate (unit c) = false := by
    rw [← Bool.not_eq_true, isHighSurrogate_iff, hu]; omega
  have hl : isLowSurrogate (unit c) = false := by
    rw [← Bool.not_eq_true, isLowSurrogate_iff, hu]; omega
  have hs : ofSingle (unit c) = c := by simp [ofSingle, hh, hl, hu]
  cases t with
  | nil => simp [toChars, hs]
  | cons v t => simp [toChars, hh, hs]

/-- The code units of a character are read as that character, whatever follows. -/
theorem toChars_ofChar_append (c : Char) (t : Text) :
    toChars (ofChar c ++ t) = c :: toChars t := by
  by_cases h : c.toNat < 0x10000
  · simpa [ofChar, h] using toChars_unit_cons h t
  · have hc : c.toNat < 0xD800 ∨ 0xDFFF < c.toNat ∧ c.toNat < 0x110000 := c.valid
    obtain ⟨k, hk⟩ : ∃ k, k = c.toNat - 0x10000 := ⟨_, rfl⟩
    have hhigh : (0xD800 + k / 0x400).toUInt16.toNat = 0xD800 + k / 0x400 := by simp; omega
    have hlow : (0xDC00 + k % 0x400).toUInt16.toNat = 0xDC00 + k % 0x400 := by simp; omega
    have hh : isHighSurrogate (0xD800 + k / 0x400).toUInt16 = true := by
      rw [isHighSurrogate_iff, hhigh]; omega
    have hl : isLowSurrogate (0xDC00 + k % 0x400).toUInt16 = true := by
      rw [isLowSurrogate_iff, hlow]; omega
    have hp : ofPair (0xD800 + k / 0x400).toUInt16 (0xDC00 + k % 0x400).toUInt16 = c := by
      have hsum : 0x10000 + (0xD800 + k / 0x400 - 0xD800) * 0x400
          + (0xDC00 + k % 0x400 - 0xDC00) = c.toNat := by omega
      rw [ofPair, hhigh, hlow, hsum, Char.ofNat_toNat]
    simp only [ofChar, h, if_false, ← hk, List.cons_append, List.nil_append, toChars, hh, hl,
      Bool.and_self, if_true, hp]

/-- A string comes back from its code units. -/
theorem toString_ofString (s : String) : toString (ofString s) = s := by
  have h (l : List Char) : toChars (l.flatMap ofChar) = l := by
    induction l with
    | nil => rfl
    | cons c l ih => rw [List.flatMap_cons, toChars_ofChar_append, ih]
  rw [toString, ofString, h, String.ofList_toList]

/-- There is always a line, possibly empty. -/
theorem lines_ne_nil (t : Text) : lines t ≠ [] := List.splitOn_ne_nil _ _

end Text

/-- A decimal digit of ASCII. -/
def isDigit (u : CodeUnit) : Bool := unit '0' ≤ u && u ≤ unit '9'

/-- The value of a decimal digit. -/
def digitValue (u : CodeUnit) : Nat := u.toNat - (unit '0').toNat

/-- A letter of ASCII. -/
def isLetter (u : CodeUnit) : Bool :=
  unit 'a' ≤ u && u ≤ unit 'z' || unit 'A' ≤ u && u ≤ unit 'Z'

end FunctionPlot
