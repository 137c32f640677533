/-
# The tokens of a text

The tokens of a text stand in it one behind the other, each of them the longest one at its place,
and nothing but blanks is between them (`TokenStream.ofText_tokenization`).  The reading stops at
the first place where no token stands, or at the end.  A lazy reading hands out the same tokens one
by one, and then the same error or the end.

`Scanned source position s` says this of the stream of what follows some position.  It holds of the
empty rest, and one more blank or token in front of the rest keeps it.
-/
import FunctionPlot.Proofs.Formula.Lexicon

namespace FunctionPlot

namespace Token

/-- The offset of a code unit that belongs to a token. -/
def Covers (t : Token) (i : Nat) : Prop := t.position ≤ i ∧ i < t.endPosition

/-- A token stands in a source at its position. -/
def Stands (source : Text) (t : Token) : Prop :=
  IsLexeme t.kind t.text (source.drop t.position)

end Token

namespace TokenStream

/-- The offset at which the reading of a source stops. -/
def stop (source : Text) (s : TokenStream) : Nat :=
  s.fault?.elim source.length FormulaError.position

/-- A reading of a source comes to an offset, with all that is in front of it in blanks and tokens
and with no token across it. -/
structure Reaches (source : Text) (s : TokenStream) (p : Nat) : Prop where
  behind : ∀ i < p, (∃ t ∈ s.tokens, t.Covers i) ∨ ∃ u, source[i]? = some u ∧ isBlank u
  boundary : ∀ t ∈ s.tokens, t.endPosition ≤ p ∨ p ≤ t.position

/-- A stream is what is to be read of a source from a position on. -/
structure Scanned (source : Text) (position : Nat) (s : TokenStream) : Prop where
  le_position : ∀ t ∈ s.tokens, position ≤ t.position
  sorted : s.tokens.Pairwise fun t u => t.position < u.position ∧ t.endPosition ≤ u.position
  stands : ∀ t ∈ s.tokens, t.Stands source
  endPosition_le : ∀ t ∈ s.tokens, t.endPosition ≤ s.stop source
  covered : ∀ i, position ≤ i → i < s.stop source →
    (∃ t ∈ s.tokens, t.Covers i) ∨ ∃ u, source[i]? = some u ∧ isBlank u
  length_le : position + s.tokens.length ≤ s.stop source
  stop_le : s.stop source ≤ source.length
  fault : ∀ e, s.fault? = some e → ∃ u, e = stray source e.position u ∧
    source[e.position]? = some u ∧ isBlank u = false ∧ ¬ StartsToken (source.drop e.position)

variable {source rest : Text} {position more : Nat} {first : CodeUnit} {kind : TokenKind}
  {s : TokenStream}

lemma getElem?_of_drop (h : source.drop position = first :: rest) :
    source[position]? = some first := by
  have hhead := List.head?_drop (l := source) (i := position)
  rw [h] at hhead
  exact hhead.symm

lemma drop_of_drop (h : source.drop position = first :: rest) (n : Nat) :
    source.drop (position + 1 + n) = rest.drop n := by
  rw [← List.drop_drop, ← List.drop_drop, h, List.drop_one, List.tail_cons]

lemma ofRest_nil : ofRest source position [] = ended := by rw [ofRest]

lemma length_of_drop (h : source.drop position = first :: rest) :
    position + 1 + rest.length = source.length := by
  have hlength := congrArg List.length h
  rw [List.length_drop, List.length_cons] at hlength
  omega

namespace Scanned

lemma ended (h : position = source.length) : Scanned source position ended := by
  subst h
  refine ⟨?_, .nil, ?_, ?_, fun i hi hlt => ?_, Nat.le_refl _, Nat.le_refl _, ?_⟩
  · simp [TokenStream.ended]
  · simp [TokenStream.ended]
  · simp [TokenStream.ended]
  · exact absurd hlt (Nat.not_lt.mpr hi)
  · simp [TokenStream.ended]

lemma blank (hrest : source.drop position = first :: rest) (hblank : isBlank first)
    (h : Scanned source (position + 1) s) : Scanned source position s := by
  refine ⟨fun t ht => ?_, h.sorted, h.stands, h.endPosition_le, fun i hi hlt => ?_, ?_, h.stop_le,
    h.fault⟩
  · have := h.le_position t ht
    omega
  · rcases Nat.lt_or_eq_of_le hi with hi | rfl
    · exact h.covered i hi hlt
    · exact .inr ⟨first, getElem?_of_drop hrest, hblank⟩
  · have := h.length_le
    omega

lemma stray (hrest : source.drop position = first :: rest) (hblank : isBlank first = false)
    (h : lexeme? first rest = none) :
    Scanned source position ⟨[], some (stray source position first)⟩ := by
  have hle : position ≤ source.length := by
    have hlength := length_of_drop hrest
    omega
  refine ⟨by simp, .nil, by simp, by simp, fun i hi hi' => ?_, Nat.le_refl _, hle, ?_⟩
  · exact absurd hi' (Nat.not_lt.mpr hi)
  · rintro _ ⟨⟩
    refine ⟨first, rfl, getElem?_of_drop hrest, hblank, ?_⟩
    change ¬ StartsToken (source.drop position)
    rw [hrest]
    exact not_startsToken_of_lexeme? h

lemma cons (hrest : source.drop position = first :: rest)
    (hlexeme : lexeme? first rest = some (kind, more))
    (h : Scanned source (position + 1 + more) s) :
    Scanned source position (s.cons ⟨kind, first :: rest.take more, position⟩) := by
  obtain ⟨hfront, hmore⟩ := isLexeme_of_lexeme? hlexeme
  have hend : Token.endPosition ⟨kind, first :: rest.take more, position⟩
      = position + 1 + more := by
    simp only [Token.endPosition, List.length_cons, List.length_take, Nat.min_eq_left hmore]
    omega
  have hlength := h.length_le
  refine ⟨?_, ?_, ?_, ?_, fun i hi hlt => ?_, ?_, h.stop_le, h.fault⟩
  · refine List.forall_mem_cons.mpr ⟨Nat.le_refl _, fun t ht => ?_⟩
    have := h.le_position t ht
    omega
  · refine List.pairwise_cons.mpr ⟨fun t ht => ?_, h.sorted⟩
    have := h.le_position t ht
    rw [hend]
    exact ⟨by simp only; omega, this⟩
  · refine List.forall_mem_cons.mpr ⟨?_, h.stands⟩
    rw [Token.Stands, hrest]
    exact hfront
  · refine List.forall_mem_cons.mpr ⟨?_, h.endPosition_le⟩
    rw [hend]
    exact le_trans (Nat.le_add_right _ _) hlength
  · by_cases hi' : i < position + 1 + more
    · exact .inl ⟨_, List.mem_cons_self, hi, hend ▸ hi'⟩
    · refine (h.covered i (Nat.not_lt.mp hi') hlt).imp_left ?_
      rintro ⟨t, ht, hcovers⟩
      exact ⟨t, List.mem_cons_of_mem _ ht, hcovers⟩
  · change position + (s.tokens.length + 1) ≤ s.stop source
    omega

end Scanned

/-- The stream of the rest of a source is what is to be read of it. -/
theorem scanned_ofRest (hrest : source.drop position = rest) (hle : position ≤ source.length) :
    Scanned source position (ofRest source position rest) := by
  fun_induction ofRest source position rest with
  | case1 position => exact .ended (le_antisymm hle (List.drop_eq_nil_iff.mp hrest))
  | case2 position first rest hblank ih =>
    have hlength := length_of_drop hrest
    exact .blank hrest hblank (ih (drop_of_drop hrest 0) (by omega))
  | case3 position first rest hblank h => exact .stray hrest (by simpa using hblank) h
  | case4 position first rest hblank kind more hlexeme ih =>
    have hlength := length_of_drop hrest
    have hmore := (isLexeme_of_lexeme? hlexeme).2
    exact .cons hrest hlexeme (ih (drop_of_drop hrest more) (by omega))

theorem scanned_ofText (source : Text) : Scanned source 0 (ofText source) :=
  scanned_ofRest rfl (Nat.zero_le _)

/-! ### Where the reading stops -/

namespace Scanned

lemma reaches_stop (h : Scanned source 0 s) : s.Reaches source (s.stop source) :=
  ⟨fun i hi => h.covered i (Nat.zero_le i) hi, fun t ht => .inl (h.endPosition_le t ht)⟩

lemma pos_length (h : Scanned source position s) {t : Token} (ht : t ∈ s.tokens) :
    0 < t.text.length := by
  refine List.length_pos_iff.mpr ?_
  have hmem := (h.stands t ht).longest.mem
  rintro hnil
  rw [hnil] at hmem
  exact t.kind.nil_notMem_language hmem

/-- There is only one place at which nothing but a blank or the start of a token could follow and
does not. -/
lemma eq_stop (h : Scanned source 0 s) {p : Nat} {u : CodeUnit} (hreach : s.Reaches source p)
    (hu : source[p]? = some u) (hblank : isBlank u = false)
    (hstart : ¬ StartsToken (source.drop p)) : p = s.stop source ∧ s.fault?.isSome := by
  have hlt : p < source.length := (List.getElem?_eq_some_iff.mp hu).1
  rcases Nat.lt_trichotomy p (s.stop source) with hp | rfl | hp
  · -- a token that covers the place starts there
    rcases h.covered p (Nat.zero_le p) hp with ⟨t, ht, hle, hend⟩ | ⟨v, hv, hblank'⟩
    · have hposition : t.position = p := by
        rcases hreach.boundary t ht with hb | hb <;> omega
      have hstands := h.stands t ht
      rw [Token.Stands, hposition] at hstands
      exact absurd ⟨t.kind, t.text, hstands.longest.mem, hstands.longest.front⟩ hstart
    · rw [hu] at hv
      cases hv
      rw [hblank] at hblank'
      cases hblank'
  · refine ⟨rfl, ?_⟩
    cases hfault : s.fault? with
    | some e => rfl
    | none =>
      rw [stop, hfault] at hlt
      exact absurd hlt (Nat.lt_irrefl _)
  · -- the place of the error is in no token and no blank
    cases hfault : s.fault? with
    | none =>
      rw [stop, hfault] at hp
      exact absurd (hp.trans hlt) (Nat.lt_irrefl _)
    | some e =>
      obtain ⟨v, -, hv, hblank', -⟩ := h.fault e hfault
      have hstop : s.stop source = e.position := by rw [stop, hfault, Option.elim_some]
      rw [hstop] at hp
      rcases hreach.behind e.position hp with ⟨t, ht, -, hend⟩ | ⟨w, hw, hblank''⟩
      · have := h.endPosition_le t ht
        omega
      · rw [hv] at hw
        cases hw
        rw [hblank'] at hblank''
        cases hblank''

/-- The error is at the place that is reached without a token there. -/
lemma fault_iff (h : Scanned source 0 s) (e : FormulaError) : s.fault? = some e ↔
    ∃ p u, e = TokenStream.stray source p u ∧ s.Reaches source p ∧ source[p]? = some u ∧
      isBlank u = false ∧ ¬ StartsToken (source.drop p) := by
  constructor
  · intro he
    obtain ⟨u, hstray, hu, hblank, hstart⟩ := h.fault e he
    have hreach := h.reaches_stop
    rw [stop, he, Option.elim_some] at hreach
    exact ⟨e.position, u, hstray, hreach, hu, hblank, hstart⟩
  · rintro ⟨p, u, rfl, hreach, hu, hblank, hstart⟩
    obtain ⟨hp, hsome⟩ := h.eq_stop hreach hu hblank hstart
    obtain ⟨e, he⟩ := Option.isSome_iff_exists.mp hsome
    obtain ⟨v, hstray, hv, -, -⟩ := h.fault e he
    obtain rfl : p = e.position := by rw [hp, stop, he, Option.elim_some]
    rw [hu] at hv
    cases hv
    rw [he, hstray]
    rfl

end Scanned

/-- What a stream answers to a question, counted from zero. -/
def answerAt (s : TokenStream) (n : Nat) : Scanner.Answer :=
  match s.tokens[n]? with
  | some t => .token t
  | none => if n = s.tokens.length then s.fault?.elim .done .fault else .done

lemma answerAt_ended (n : Nat) : ended.answerAt n = .done := by
  by_cases hn : n = 0 <;> simp [answerAt, ended, hn]

end TokenStream

/-! ### Lazy readings -/

namespace Scanner

/-- What a lazy reading answers to a question, counted from zero. -/
def answerAt (s : Scanner) : Nat → Answer
  | 0 => s.next.1
  | n + 1 => s.next.2.answerAt n

/-- What a lazy reading has still to hand out. -/
def stream (s : Scanner) : TokenStream := TokenStream.ofRest s.source s.position s.rest

lemma stream_skipBlanks (s : Scanner) : s.skipBlanks.stream = s.stream := by
  obtain ⟨source, position, rest⟩ := s
  induction rest generalizing position with
  | nil => rfl
  | cons u rest ih =>
    by_cases hblank : isBlank u
    · have hnext := ih (position + 1)
      simp only [skipBlanks, stream, List.takeWhile_cons_of_pos hblank,
        List.dropWhile_cons_of_pos hblank, List.length_cons] at hnext ⊢
      rw [TokenStream.ofRest_blank hblank, ← hnext]
      congr 1
      omega
    · simp [skipBlanks, List.takeWhile_cons_of_neg hblank, List.dropWhile_cons_of_neg hblank]

/-- A question takes the first token from what is left, or the error, or nothing at the end. -/
lemma next_cases (s : Scanner) :
    (∃ t stream, s.stream = .cons t stream ∧ s.next.1 = .token t ∧ s.next.2.stream = stream) ∨
    (∃ e, s.stream = ⟨[], some e⟩ ∧ s.next.1 = .fault e ∧ s.next.2.stream = .ended) ∨
    (s.stream = .ended ∧ s.next.1 = .done ∧ s.next.2.stream = .ended) := by
  have hhead : Lacks isBlank s.skipBlanks.rest := by
    intro u hu
    have hhead := List.head?_dropWhile_not isBlank s.rest
    change u ∈ (s.rest.dropWhile isBlank).head? at hu
    rw [Option.mem_def.mp hu] at hhead
    exact hhead
  rw [← s.stream_skipBlanks, next]
  generalize s.skipBlanks = s at hhead ⊢
  obtain ⟨source, position, rest⟩ := s
  cases rest with
  | nil => exact .inr (.inr ⟨TokenStream.ofRest_nil, rfl, TokenStream.ofRest_nil⟩)
  | cons first rest =>
    have hblank : ¬ isBlank first := by simpa using hhead
    simp only [stream]
    rw [TokenStream.ofRest, if_neg hblank]
    cases hlexeme : lexeme? first rest with
    | none => exact .inr (.inl ⟨_, rfl, rfl, TokenStream.ofRest_nil⟩)
    | some found => exact .inl ⟨_, _, rfl, rfl, rfl⟩

/-- A lazy reading hands out what is left. -/
theorem answerAt_eq (s : Scanner) (n : Nat) : s.answerAt n = s.stream.answerAt n := by
  induction n generalizing s with
  | zero =>
    rw [answerAt]
    rcases s.next_cases with ⟨t, stream, hs, hnext, -⟩ | ⟨e, hs, hnext, -⟩ | ⟨hs, hnext, -⟩
    · rw [hs, hnext]
      rfl
    · rw [hs, hnext]
      rfl
    · rw [hs, hnext]
      rfl
  | succ n ih =>
    rw [answerAt, ih]
    rcases s.next_cases with ⟨t, stream, hs, -, hnext⟩ | ⟨e, hs, -, hnext⟩ | ⟨hs, -, hnext⟩
    · rw [hs, hnext]
      simp [TokenStream.answerAt, TokenStream.cons]
    · rw [hs, hnext, TokenStream.answerAt_ended]
      rfl
    · rw [hs, hnext, TokenStream.answerAt_ended, TokenStream.answerAt_ended]

end Scanner

namespace TokenStream

/-- The tokens of a text stand in it in order and apart, each of them the longest prefix of its kind
of what begins at its position, and all that is between them is blank.  The reading stops at the
first place of another character, which is the error, or else at the end.  A lazy reading hands out
the same. -/
theorem ofText_tokenization (source : Text) :
    (ofText source).tokens.Pairwise
      (fun t u => t.position < u.position ∧ t.endPosition ≤ u.position) ∧
    (∀ t ∈ (ofText source).tokens,
      t.text ≠ [] ∧ (source.drop t.position).take t.text.length = t.text ∧
      t.endPosition ≤ (ofText source).stop source ∧
      IsLongestPrefix t.kind.language t.text (source.drop t.position) ∧
      (∀ value, t.kind = .number value → value = Number.ofCount t.text ∧ ¬ value.isNaN ∧
        ¬ Number.isNegative value ∧ ¬ value < 0) ∧
      ((∃ value, t.kind = .number value) ∨ t.kind = .identifier ∨
        ∃ c ∈ ['+', '-', '*', '/', '^', '(', ')', ','], t.text = [unit c])) ∧
    (∀ i < (ofText source).stop source, (∃ t ∈ (ofText source).tokens, t.Covers i) ∨
      ∃ u, source[i]? = some u ∧ isBlank u) ∧
    (ofText source).tokens.length ≤ (ofText source).stop source ∧
    (ofText source).stop source ≤ source.length ∧
    (∀ n, (Scanner.ofText source).answerAt n = (ofText source).answerAt n) ∧
    ∀ e, (ofText source).fault? = some e ↔
      ∃ p u, e = ⟨.strayCharacter [u], p, source⟩ ∧ (ofText source).Reaches source p ∧
        source[p]? = some u ∧ isBlank u = false ∧ ¬ StartsToken (source.drop p) := by
  have h := scanned_ofText source
  refine ⟨h.sorted, fun t ht => ?_, fun i hi => h.covered i (Nat.zero_le i) hi, ?_, h.stop_le,
    (Scanner.ofText source).answerAt_eq, h.fault_iff⟩
  · obtain ⟨hlongest, hvalue⟩ := h.stands t ht
    refine ⟨List.length_pos_iff.mp (h.pos_length ht), ?_, h.endPosition_le t ht, hlongest, ?_, ?_⟩
    · exact (List.prefix_iff_eq_take.mp hlongest.front).symm
    · intro value hkind
      rw [hkind] at hlongest
      rw [hvalue value hkind, Lexicon.ofCount_of_mem_numeral hlongest.mem]
      have hsign := Number.not_isNegative_ofNumeral t.text
      exact ⟨rfl, Lexicon.not_isNaN_of_mem_numeral hlongest.mem, hsign,
        Number.not_lt_zero_of_not_isNegative hsign⟩
    · exact TokenKind.kind_or_sign hlongest.mem
  · simpa using h.length_le

end TokenStream

end FunctionPlot
