/-
# Places and offsets

A place in a text can be turned back into the offset that it stands for: the line that is shown is
the line of the text with its number, and the column counts from the start of that line
(`Place.stands_ofOffset`).  The lines of a report are what the report is put together from
(`Place.lines_report`), as long as its headline is a single line.

Both the text and the part of it in front of the offset are cut into lines.  The two cuts agree
up to the line with the offset, where the part in front of it has only a part of the line
(`Text.exists_lines_append`).
-/
import FunctionPlot.Text.Place
import FunctionPlot.Proofs.Number.Numeral
import Mathlib.Algebra.BigOperators.Group.List.Basic

namespace FunctionPlot

namespace Text

variable {s t line : Text}

/-- The offset at which the line with some number starts, counted from one.  Each line in front of
it has a line feed behind it. -/
def lineStart (t : Text) (number : Nat) : Nat :=
  (((lines t).take (number - 1)).map fun line => line.length + 1).sum

/-- A text that has no line feed is a single line. -/
def IsLine (t : Text) : Prop := unit '\n' ∉ t

instance (t : Text) : Decidable (IsLine t) := inferInstanceAs (Decidable (unit '\n' ∉ t))

lemma IsLine.append (hs : IsLine s) (ht : IsLine t) : IsLine (s ++ t) := by
  rw [IsLine, List.mem_append]
  exact fun h => h.elim hs ht

lemma isLine_of_not_isBlank (h : ∀ u ∈ t, isBlank u = false) : IsLine t := by
  intro hmem
  have hblank := h _ hmem
  exact absurd hblank (by decide)

/-- Digits are on one line. -/
lemma isLine_ofNat (n : Nat) : IsLine (ofNat n) :=
  isLine_of_not_isBlank fun u hu => isBlank_eq_false_of_isDigit (Digits.ofNat n u hu)

lemma isLine_ofInt (n : Int) : IsLine (ofInt n) := by
  cases n with
  | ofNat n => exact isLine_ofNat n
  | negSucc n => exact IsLine.append (s := [unit '-']) (by decide) (isLine_ofNat (n + 1))

lemma lines_eq_singleton (h : IsLine t) : lines t = [t] := List.splitOn_eq_singleton h

/-- At a line feed the lines in front of it are apart from those behind it. -/
lemma lines_append_cons (s t : Text) : lines (s ++ unit '\n' :: t) = lines s ++ lines t :=
  List.splitOn_append_cons_self s t

/-- A code unit belongs to the first line, unless it is a line feed. -/
lemma lines_cons (u : CodeUnit) (t : Text) : ∃ first more, lines t = first :: more ∧
    lines (u :: t) = if u = unit '\n' then [] :: first :: more else (u :: first) :: more := by
  obtain ⟨first, more, hlines⟩ := List.exists_cons_of_ne_nil (lines_ne_nil t)
  refine ⟨first, more, hlines, ?_⟩
  rw [lines] at hlines
  rw [lines, List.splitOn_cons_eq_if_modifyHead, hlines, List.modifyHead_cons]
  simp only [beq_iff_eq]

/-- The lines of a text are lines. -/
lemma isLine_of_mem_lines (h : line ∈ lines t) : IsLine line := by
  induction t generalizing line with
  | nil =>
    obtain rfl : line = [] := by simpa [lines] using h
    exact List.not_mem_nil
  | cons u t ih =>
    obtain ⟨first, more, ht, hcons⟩ := lines_cons u t
    rw [ht] at ih
    rw [hcons] at h
    split at h
    · rcases List.mem_cons.mp h with rfl | h
      · exact List.not_mem_nil
      · exact ih h
    · rename_i hu
      rcases List.mem_cons.mp h with rfl | h
      · rw [IsLine, List.mem_cons, not_or]
        exact ⟨Ne.symm hu, ih List.mem_cons_self⟩
      · exact ih (List.mem_cons_of_mem _ h)

/-- Each line but the last has a line feed behind it. -/
lemma sum_length_lines (t : Text) :
    ((lines t).map fun line => line.length + 1).sum = t.length + 1 := by
  induction t with
  | nil => rfl
  | cons u t ih =>
    obtain ⟨first, more, ht, hcons⟩ := lines_cons u t
    rw [ht] at ih
    rw [hcons]
    split
    · rw [List.map_cons, List.sum_cons, ih, List.length_nil, List.length_cons]
      omega
    · rw [List.map_cons, List.sum_cons] at ih ⊢
      rw [List.length_cons, List.length_cons]
      omega

/-- A text is its last line, or has a line feed in front of it. -/
lemma exists_lastLine (t : Text) :
    IsLine t ∨ ∃ front last, IsLine last ∧ t = front ++ unit '\n' :: last := by
  induction t with
  | nil => exact .inl List.not_mem_nil
  | cons u t ih =>
    rcases ih with ht | ⟨front, last, hlast, rfl⟩
    · by_cases hu : u = unit '\n'
      · exact .inr ⟨[], t, ht, by rw [hu, List.nil_append]⟩
      · refine .inl ?_
        rw [IsLine, List.mem_cons, not_or]
        exact ⟨Ne.symm hu, ht⟩
    · exact .inr ⟨u :: front, last, hlast, rfl⟩

/-- The lines of a text that begins with a part of a line. -/
lemma exists_lines_of_isLine (h : IsLine s) (t : Text) :
    ∃ first more, lines (s ++ t) = (s ++ first) :: more := by
  by_cases ht : unit '\n' ∈ t
  · obtain ⟨first, rest, rfl, hfirst⟩ := List.eq_append_cons_of_mem ht
    refine ⟨first, lines rest, ?_⟩
    rw [← List.append_assoc, lines_append_cons, lines_eq_singleton (h.append hfirst),
      List.singleton_append]
  · exact ⟨t, [], lines_eq_singleton (h.append ht)⟩

/-- Where a text is cut in two, the lines in front of the cut are the same for the text and for its
first part, and the first part has the front of the line with the cut. -/
lemma exists_lines_append (s t : Text) : ∃ before last first more,
    lines s = before ++ [last] ∧ lines (s ++ t) = before ++ (last ++ first) :: more ∧
      (before.map fun line => line.length + 1).sum + last.length = s.length := by
  rcases exists_lastLine s with hs | ⟨front, last, hlast, rfl⟩
  · obtain ⟨first, more, hlines⟩ := exists_lines_of_isLine hs t
    exact ⟨[], s, first, more, lines_eq_singleton hs, hlines, by simp⟩
  · obtain ⟨first, more, hlines⟩ := exists_lines_of_isLine hlast t
    refine ⟨lines front, last, first, more, ?_, ?_, ?_⟩
    · rw [lines_append_cons, lines_eq_singleton hlast]
    · rw [List.append_assoc, List.cons_append, lines_append_cons, hlines]
    · rw [sum_length_lines, List.length_append, List.length_cons]
      omega

/-- Lines that are joined are found again. -/
lemma lines_joined {ts : List Text} (h : ∀ t ∈ ts, IsLine t) (hne : ts ≠ []) :
    lines (joined [unit '\n'] ts) = ts :=
  List.splitOn_intercalate (unit '\n') h hne

end Text

namespace Place

variable {source headline : Text} {offset : Nat}

/-- A place in a text stands for an offset: it shows the line with its number, and its column is
that many code units behind the start of the line. -/
structure Stands (source : Text) (offset : Nat) (p : Place) : Prop where
  shown_eq : (Text.lines source)[p.line - 1]? = some p.shown
  before_eq : p.before = p.shown.take (p.column - 1)
  column_le : p.column - 1 ≤ p.shown.length
  offset_eq : Text.lineStart source p.line + (p.column - 1) = offset

/-- The place of an offset stands for the offset. -/
theorem stands_ofOffset (h : offset ≤ source.length) :
    (ofOffset source offset).Stands source offset := by
  obtain ⟨before, last, first, more, hfront, hlines, hlength⟩ :=
    Text.exists_lines_append (source.take offset) (source.drop offset)
  rw [List.take_append_drop] at hlines
  rw [List.length_take, Nat.min_eq_left h] at hlength
  have hplace : ofOffset source offset = ⟨before.length + 1, last, last ++ first⟩ := by
    rw [ofOffset, hfront, hlines]
    simp
  rw [hplace]
  refine ⟨?_, ?_, ?_, ?_⟩
  · simp [hlines]
  · simp [column]
  · simp [column]
  · rw [Text.lineStart, hlines]
    simpa [column] using hlength

/-- The lines of a report are the headline, the line and column, an empty line, the line of the
place and the line with the caret. -/
theorem lines_report {p : Place} (hheadline : Text.IsLine headline) (hshown : Text.IsLine p.shown)
    (hbefore : Text.IsLine p.before) : Text.lines (p.report headline) =
      [headline, "at line " ++ Text.ofNat p.line ++ ", column " ++ Text.ofNat p.column, [], p.shown,
        p.caretLine] := by
  have hposition : Text.IsLine
      ("at line " ++ Text.ofNat p.line ++ ", column " ++ Text.ofNat p.column) :=
    (((by decide : Text.IsLine "at line ").append (Text.isLine_ofNat _)).append (by decide)).append
      (Text.isLine_ofNat _)
  have hcaret : Text.IsLine p.caretLine := by
    refine Text.IsLine.append (fun hmem => ?_) (by decide)
    obtain ⟨u, hu, heq⟩ := List.mem_map.mp hmem
    split at heq
    · exact hbefore (heq ▸ hu)
    · exact absurd heq (by decide)
  refine Text.lines_joined ?_ (List.cons_ne_nil _ _)
  simp only [List.mem_cons, List.not_mem_nil, or_false, forall_eq_or_imp, forall_eq]
  exact ⟨hheadline, hposition, List.not_mem_nil, hshown, hcaret⟩

end Place

end FunctionPlot
