/-
# Places in a text

An offset into a text of several lines is shown to a reader as a line number, a column and the
line itself with a caret under the place.  Lines end at line feeds only.  In the line of the
caret the tabulators of the shown line are kept, so that the caret stands under its place however
wide a tabulator is.
-/
import FunctionPlot.Text

namespace FunctionPlot

/-- The place of an offset in a text. -/
structure Place where
  /-- The number of the line, counted from one. -/
  line : Nat
  /-- The part of the line in front of the place. -/
  before : Text
  /-- The whole line, without its line feed. -/
  shown : Text
deriving DecidableEq, Repr

namespace Place

/-- The place of an offset.  An offset behind the end of the text stands at its end. -/
def ofOffset (source : Text) (offset : Nat) : Place :=
  let preceding := Text.lines (source.take offset)
  { line := preceding.length
    before := preceding.getLastD []
    shown := (Text.lines source).getD (preceding.length - 1) [] }

/-- The number of the column, counted from one. -/
def column (p : Place) : Nat := p.before.length + 1

/-- The line under the shown line, with a caret under the place. -/
def caretLine (p : Place) : Text :=
  p.before.map (fun u => if u = unit '\t' then u else unit ' ') ++ [unit '^']

/-- The report of a place under a headline: the line and column, an empty line, the line itself
and the caret. -/
def report (p : Place) (headline : Text) : Text :=
  Text.joined [unit '\n']
    [headline,
      "at line " ++ Text.ofNat p.line ++ ", column " ++ Text.ofNat p.column,
      [],
      p.shown,
      p.caretLine]

/-- The first line has the number one. -/
theorem line_pos (source : Text) (offset : Nat) : 0 < (ofOffset source offset).line :=
  List.length_pos_iff.mpr (Text.lines_ne_nil _)

end Place

end FunctionPlot
