/-
# The messages of errors

The message of an error of a text that is no expression has five lines, and from them the offset of
the error can be found again (`Expression.compile_error_message`).

For that neither the reason nor the line that is shown may have a line feed.  A reason is put
together from fixed words, numbers, tokens and a stray character.  Tokens have no blanks, and a
stray character is none.
-/
import FunctionPlot.Proofs.Expression.ErrorPlace
import FunctionPlot.Proofs.Parser.Alike
import FunctionPlot.Proofs.Text.Place

namespace FunctionPlot

open Text

namespace Formula

variable {source : Text} {e : FormulaError}

/-- What an error of a text says it expected is one of the expectations of the parser. -/
lemma expected_mem (h : ofText source = .error e) : ∀ expected found reason?,
    e.cause = .mismatch expected found reason? → expected ∈ Parser.expectations := by
  intro expected found reason? hcause
  have halike : AnswersAlike id (fun e _ => (TokenStream.ofText source).fault? = some e)
      (ofText source) (ofText source) := by
    refine ofStream_alike rfl ?_ source source
    cases hfault : (TokenStream.ofText source).fault? with
    | none => exact .none
    | some fault => exact .some rfl
  rw [h] at halike
  cases halike with
  | error hfails =>
    rcases hfails.exists_mismatch with ⟨p, expected', mem, reason'?, rfl⟩ | hfault
    · cases hcause
      exact mem
    · obtain ⟨u, hstray, -⟩ := (TokenStream.scanned_ofText source).fault e hfault
      rw [hstray] at hcause
      cases hcause

lemma isLine_token {t : Token} (ht : t ∈ (TokenStream.ofText source).tokens) : IsLine t.text :=
  isLine_of_not_isBlank (TokenKind.isBlank_eq_false_of_mem
    ((TokenStream.scanned_ofText source).stands t ht).longest.mem)

/-- What is found is a token in quotes or the end. -/
lemma isLine_found {next? : Option Token}
    (hnext : ∀ t ∈ next?, t ∈ (TokenStream.ofText source).tokens) :
    IsLine (next?.elim "end of input" fun t => "'" ++ t.text ++ "'") := by
  cases next? with
  | none => decide
  | some t =>
    exact ((by decide : IsLine "'").append (isLine_token (hnext t rfl))).append (by decide)

/-- The reason that a parser gives for stopping in front of a token is a single line. -/
lemma isLine_of_describes {w : Failure} {next? : Option Token} {expected reason : Text}
    (hnext : ∀ t ∈ next?, t ∈ (TokenStream.ofText source).tokens)
    (h : w.Describes next? expected (some reason)) : IsLine reason := by
  cases w with
  | refused =>
    rcases h with h | h
    · cases h
    · cases h
      decide
  | outOfRange =>
    obtain ⟨-, t, rfl, hreason⟩ := h
    cases hreason
    exact (by decide : IsLine "Number out of range: ").append (isLine_token (hnext t rfl))
  | tooDeep =>
    obtain ⟨-, hreason⟩ := h
    cases hreason
    decide

lemma isLine_reason_of_ofText (h : ofText source = .error e) : IsLine e.reason := by
  have hverdict := verdict (.ofText source) source
  change Verdict _ _ (ofText source) at hverdict
  have hexpected := expected_mem h
  rw [h] at hverdict
  cases hverdict with
  | @stopped w ts rest expected reason? tokens_eq fault describes viable excludes =>
    have hnext : ∀ t ∈ rest.head?, t ∈ (TokenStream.ofText source).tokens := fun t ht => by
      rw [tokens_eq]
      exact List.mem_append_right _ (List.mem_of_mem_head? ht)
    cases reason? with
    | some reason => exact isLine_of_describes hnext describes
    | none =>
      have hline : ∀ t ∈ Parser.expectations, IsLine t := by decide
      exact (((by decide : IsLine "Expected ").append (hline _ (hexpected _ _ _ rfl))).append
        (by decide)).append (isLine_found hnext)
  | faulty fault viable =>
    obtain ⟨u, hstray, -, hblank, -⟩ := (TokenStream.scanned_ofText source).fault e fault
    rw [hstray]
    exact (by decide : IsLine "Unexpected character: ").append
      (isLine_of_not_isBlank (by simpa using hblank))

lemma isLine_reason_of_blames
    (h : Blames (IsNamed (TokenStream.ofText source).tokens) source e) : IsLine e.reason := by
  obtain ⟨-, role, name, ⟨before, t, after, htokens, -, rfl, -, -⟩, hcause⟩ := h
  have ht : t ∈ (TokenStream.ofText source).tokens := by simp [htokens]
  have hname := isLine_token ht
  rcases hcause with hcause | ⟨-, expected, got, hcause⟩
  · rw [FormulaError.reason, hcause, Cause.reason]
    have hword : IsLine role.word := by cases role <;> decide
    exact (((by decide : IsLine "Unknown ").append hword).append (by decide)).append hname
  · rw [FormulaError.reason, hcause, Cause.reason]
    have hplural : IsLine (if expected = 1 then [] else [unit 's']) := by
      split <;> decide
    exact (((((hname.append (by decide)).append (isLine_ofInt expected)).append
      (by decide)).append hplural).append (by decide)).append (isLine_ofInt got)

end Formula

namespace Expression

variable {source : Text} {table : SymbolTable} {e : FormulaError}

/-- The reason for which a text is no expression is a single line. -/
lemma isLine_reason (h : compile source table = .error e) : IsLine e.reason := by
  rcases compile_eq_error_iff.mp h with h | ⟨f, hf, hcheck⟩
  · exact Formula.isLine_reason_of_ofText h
  · exact Formula.isLine_reason_of_blames
      (Formula.blames_of_checkFrom (Formula.anchored_of_ofText hf) hcheck)

/-- The message of an error of a text has five lines: the reason, the line and column, an empty
line, the line of the text with this number, and a caret in this column behind blanks that keep the
tabulators of the line.  The line and column stand for the offset of the error. -/
theorem compile_error_message (h : compile source table = .error e) :
    ∃ (line column : Nat) (shown : Text),
      Text.lines e.message = [e.reason,
        "at line " ++ Text.ofNat line ++ ", column " ++ Text.ofNat column, [], shown,
        (shown.take (column - 1)).map (fun u => if u = unit '\t' then u else unit ' ')
          ++ [unit '^']] ∧
      0 < line ∧ 0 < column ∧ (Text.lines source)[line - 1]? = some shown ∧
      column - 1 ≤ shown.length ∧ Text.lineStart source line + (column - 1) = e.position := by
  obtain ⟨hsource, -, hposition⟩ := compile_error_placed h
  have hplace : e.place = Place.ofOffset source e.position := by rw [FormulaError.place, hsource]
  have hstands : e.place.Stands source e.position := hplace ▸ Place.stands_ofOffset hposition
  have hshown : IsLine e.place.shown := isLine_of_mem_lines (List.mem_of_getElem? hstands.shown_eq)
  have hbefore : IsLine e.place.before := by
    rw [hstands.before_eq]
    exact fun hmem => hshown (List.mem_of_mem_take hmem)
  refine ⟨e.place.line, e.place.column, e.place.shown, ?_, hplace ▸ Place.line_pos _ _,
    Nat.succ_pos _, hstands.shown_eq, hstands.column_le, hstands.offset_eq⟩
  rw [FormulaError.message, Place.lines_report (isLine_reason h) hshown hbefore, Place.caretLine,
    ← hstands.before_eq]

theorem compile_error_message_secondLine :
    ∃ e, compile "x +\n\t*y" .standard = .error e ∧ ∃ (line column : Nat) (shown : Text),
      Text.lines e.message = [e.reason,
        "at line " ++ Text.ofNat line ++ ", column " ++ Text.ofNat column, [], shown,
        (shown.take (column - 1)).map (fun u => if u = unit '\t' then u else unit ' ')
          ++ [unit '^']] ∧
      0 < line ∧ 0 < column ∧ (Text.lines "x +\n\t*y")[line - 1]? = some shown ∧
      column - 1 ≤ shown.length ∧ Text.lineStart "x +\n\t*y" line + (column - 1) = e.position := by
  have hread : Formula.ofText "x +\n\t*y"
      = .error ⟨.mismatch "expression" "'*'" none, 5, "x +\n\t*y"⟩ := by cbv
  have herror : compile "x +\n\t*y" .standard = .error _ := compile_eq_error_iff.mpr (.inl hread)
  exact ⟨_, herror, compile_error_message herror⟩

end Expression

end FunctionPlot
