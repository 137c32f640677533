/-
# Several readings of a text

Any number of readings of one text can be under way at the same time, and they can be asked for
their tokens in any order.  Each of them hands out all the tokens, then the error if there is one,
and then nothing more, as if it were the only one (`Scanner.run_interleaved`).

A step leaves all readings as they are but the one that it asks.  So by induction on the steps the
answers of a reading are those to as many questions as it was asked.
-/
import FunctionPlot.Proofs.Formula.Tokenization

namespace FunctionPlot

namespace TokenStream

/-- The answers to a number of questions: the tokens, the error behind them if there is one, and
then that there are no more. -/
def answers (s : TokenStream) (n : Nat) : List Scanner.Answer :=
  (s.tokens.map Scanner.Answer.token ++ s.fault?.toList.map Scanner.Answer.fault).takeD n .done

lemma answers_cons (t : Token) (s : TokenStream) (n : Nat) :
    (s.cons t).answers (n + 1) = .token t :: s.answers n := rfl

lemma answers_fault (e : FormulaError) (n : Nat) :
    answers ⟨[], some e⟩ (n + 1) = .fault e :: ended.answers n := rfl

lemma answers_ended (n : Nat) : ended.answers (n + 1) = .done :: ended.answers n := rfl

end TokenStream

namespace Scanner

/-- The answers of a reading to a number of questions that are asked one behind the other. -/
def answers (s : Scanner) : Nat → List Answer
  | 0 => []
  | n + 1 => s.next.1 :: s.next.2.answers n

/-- A reading hands out what is left of its text. -/
theorem answers_eq (s : Scanner) (n : Nat) : s.answers n = s.stream.answers n := by
  induction n generalizing s with
  | zero => rfl
  | succ n ih =>
    rw [answers, ih]
    rcases s.next_cases with ⟨t, stream, hs, hanswer, hnext⟩ | ⟨e, hs, hanswer, hnext⟩ |
      ⟨hs, hanswer, hnext⟩
    · rw [hs, hanswer, hnext, TokenStream.answers_cons]
    · rw [hs, hanswer, hnext, TokenStream.answers_fault]
    · rw [hs, hanswer, hnext, TokenStream.answers_ended]

/-- The readings after a sequence of steps. -/
def readings (source : Text) (scanners : List Scanner) (steps : List ScanStep) : List Scanner :=
  steps.foldl (fun scanners s => (step source scanners s).2) scanners

/-- The answers to those of some steps that are the given one. -/
def answersTo (s : ScanStep) (steps : List ScanStep) (answers : List ScanAnswer) :
    List ScanAnswer :=
  ((steps.zip answers).filter (·.1 = s)).map Prod.snd

variable {source : Text} {scanners : List Scanner} {scanner : Scanner} {index other : Nat}

/-! ### One step -/

lemma step_ask (h : scanners[index]? = some scanner) : step source scanners (.ask index)
    = (.answered scanner.next.1, scanners.set index scanner.next.2) := by
  rw [step, h]

/-- A step leaves all readings as they are but the one that it asks. -/
lemma getElem?_step (h : scanners[index]? = some scanner) {s : ScanStep} (hs : s ≠ .ask index) :
    (step source scanners s).2[index]? = some scanner := by
  obtain ⟨hlt, -⟩ := List.getElem?_eq_some_iff.mp h
  cases s with
  | start => rwa [step, List.getElem?_append_left hlt]
  | ask other =>
    rw [step]
    cases hother : scanners[other]? with
    | none => exact h
    | some reading => rwa [List.getElem?_set_ne fun heq => hs (congrArg _ heq)]

lemma length_step (source : Text) (scanners : List Scanner) (s : ScanStep) :
    (step source scanners s).2.length = scanners.length + [s].count .start := by
  cases s with
  | start => simp [step]
  | ask other =>
    rw [step]
    split <;> simp

/-! ### A sequence of steps -/

lemma run_cons (source : Text) (scanners : List Scanner) (s : ScanStep) (steps : List ScanStep) :
    run source scanners (s :: steps)
      = (step source scanners s).1 :: run source (step source scanners s).2 steps := rfl

lemma length_run (source : Text) (scanners : List Scanner) (steps : List ScanStep) :
    (run source scanners steps).length = steps.length := by
  induction steps generalizing scanners with
  | nil => rfl
  | cons s steps ih => rw [run_cons, List.length_cons, List.length_cons, ih]

lemma run_append (source : Text) (scanners : List Scanner) (steps more : List ScanStep) :
    run source scanners (steps ++ more)
      = run source scanners steps ++ run source (readings source scanners steps) more := by
  induction steps generalizing scanners with
  | nil => rfl
  | cons s steps ih => rw [List.cons_append, run_cons, ih, run_cons, List.cons_append]; rfl

lemma length_readings (source : Text) (scanners : List Scanner) (steps : List ScanStep) :
    (readings source scanners steps).length = scanners.length + steps.count .start := by
  induction steps generalizing scanners with
  | nil => rfl
  | cons s steps ih =>
    have hlength : (readings source scanners (s :: steps)).length
        = (step source scanners s).2.length + steps.count .start := ih _
    rw [hlength, length_step, List.count_cons, List.count_cons, List.count_nil]
    omega

lemma answersTo_cons (s t : ScanStep) (steps : List ScanStep) (a : ScanAnswer)
    (answers : List ScanAnswer) : answersTo s (t :: steps) (a :: answers)
      = if t = s then a :: answersTo s steps answers else answersTo s steps answers := by
  rw [answersTo, List.zip_cons_cons, List.filter_cons]
  by_cases h : t = s <;> simp [h, answersTo]

/-- A reading answers as many questions as it is asked, whatever else is done between them. -/
theorem answersTo_run (source : Text) (h : scanners[index]? = some scanner)
    (steps : List ScanStep) : answersTo (.ask index) steps (run source scanners steps)
      = (scanner.answers (steps.count (.ask index))).map .answered := by
  induction steps generalizing scanners scanner with
  | nil => rfl
  | cons s steps ih =>
    rw [run_cons, answersTo_cons]
    by_cases hs : s = .ask index
    · subst hs
      obtain ⟨hlt, -⟩ := List.getElem?_eq_some_iff.mp h
      rw [if_pos rfl, step_ask h, ih (List.getElem?_set_self hlt), List.count_cons_self, answers,
        List.map_cons]
    · rw [if_neg hs, ih (getElem?_step h hs), List.count_cons_of_ne hs]

/-- All answers are to the only step that is taken. -/
lemma answersTo_replicate (s : ScanStep) (answers : List ScanAnswer) :
    answersTo s (List.replicate answers.length s) answers = answers := by
  induction answers with
  | nil => rfl
  | cons a answers ih => rw [List.length_cons, List.replicate_succ, answersTo_cons, if_pos rfl, ih]

/-- What a reading answers that is the only one. -/
lemma run_alone (source : Text) (n : Nat) :
    (run source [] (.start :: List.replicate n (.ask 0))).tail
      = ((TokenStream.ofText source).answers n).map .answered := by
  have hfirst : [ofText source][0]? = some (ofText source) := rfl
  have hanswers := answersTo_run source hfirst (List.replicate n (.ask 0))
  have hlength : (run source [ofText source] (List.replicate n (.ask 0))).length = n := by
    rw [length_run, List.length_replicate]
  have hall := answersTo_replicate (.ask 0) (run source [ofText source] (List.replicate n (.ask 0)))
  rw [hlength, hanswers, List.count_replicate_self, answers_eq] at hall
  exact hall.symm

/-- The answers behind the start of a reading, and the number that the reading gets. -/
lemma run_start (source : Text) (before after : List ScanStep) :
    ∃ scanners, scanners[before.count .start]? = some (ofText source) ∧
      run source [] (before ++ .start :: after) = run source [] before
        ++ .started (before.count .start) :: run source scanners after := by
  have hlength : (readings source [] before).length = before.count .start := by
    rw [length_readings, List.length_nil, Nat.zero_add]
  refine ⟨readings source [] before ++ [ofText source], ?_, ?_⟩
  · rw [← hlength, List.getElem?_concat_length]
  · rw [run_append, run_cons, step, hlength]

/-- A reading that is started while others are under way gets the next number.  It answers with the
tokens of the text, in order, then with the error if there is one, and from then on that there are
no more, as many answers as it is asked for: just what it would answer if there were no other
reading. -/
theorem run_interleaved (source : Text) (before after : List ScanStep) :
    ∃ earlier later, run source [] (before ++ .start :: after)
        = earlier ++ .started (before.count .start) :: later ∧
      earlier.length = before.length ∧ later.length = after.length ∧
      answersTo (.ask (before.count .start)) after later
        = ((TokenStream.ofText source).answers (after.count (.ask (before.count .start)))).map
          .answered ∧
      answersTo (.ask (before.count .start)) after later
        = (run source []
          (.start :: List.replicate (after.count (.ask (before.count .start))) (.ask 0))).tail := by
  obtain ⟨scanners, hscanner, hrun⟩ := run_start source before after
  have hanswers := answersTo_run source hscanner after
  rw [answers_eq] at hanswers
  refine ⟨_, _, hrun, length_run _ _ _, length_run _ _ _, hanswers, ?_⟩
  rw [run_alone]
  exact hanswers

/-- A reading that met a stray character is at its end; another one has not seen it yet. -/
example : (run "x$" [] [.start, .ask 0, .ask 0, .start, .ask 0, .ask 1]).drop 2
    = [.answered (.fault ⟨.strayCharacter "$", 1, "x$"⟩), .started 1, .answered .done,
      .answered (.token ⟨.identifier, "x", 0⟩)] := by decide

end Scanner

end FunctionPlot
