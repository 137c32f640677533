/-
# Blank code units

Blanks separate tokens and surround numbers that a user types.  They are the white space and
the line terminators of Unicode as the `White_Space` property and the general category `Zs`
list them, with the byte order mark U+FEFF and without U+0085 (next line).
-/
import FunctionPlot.Text

namespace FunctionPlot

/-- The blank code units. -/
def blanks : List CodeUnit :=
  [0x0009, 0x000A, 0x000B, 0x000C, 0x000D, 0x0020, 0x00A0, 0x1680,
   0x2000, 0x2001, 0x2002, 0x2003, 0x2004, 0x2005, 0x2006, 0x2007, 0x2008, 0x2009, 0x200A,
   0x2028, 0x2029, 0x202F, 0x205F, 0x3000, 0xFEFF]

/-- A blank code unit. -/
def isBlank (u : CodeUnit) : Bool := blanks.contains u

/-- A digit is no blank. -/
theorem isBlank_eq_false_of_isDigit {u : CodeUnit} (h : isDigit u) : isBlank u = false := by
  simp only [isDigit, Bool.and_eq_true, decide_eq_true_eq] at h
  simp only [isBlank, blanks, List.contains_eq_mem, decide_eq_false_iff_not, List.mem_cons,
    List.not_mem_nil, or_false, not_or]
  obtain ⟨hl, hu⟩ := h
  refine ⟨?_, ?_, ?_, ?_, ?_, ?_, ?_, ?_, ?_, ?_, ?_, ?_, ?_, ?_, ?_, ?_, ?_, ?_, ?_, ?_, ?_, ?_,
    ?_, ?_, ?_⟩ <;> rintro rfl <;> revert hl hu <;> decide

namespace Text

/-- A text without the blanks at its two ends. -/
def trim (t : Text) : Text :=
  ((t.dropWhile isBlank).reverse.dropWhile isBlank).reverse

end Text

end FunctionPlot
