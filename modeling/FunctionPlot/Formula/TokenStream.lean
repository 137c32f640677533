/-
# Token streams

The text of a function is read lazily.  Tokens are handed out one at a time, and a character that
starts no token is an error only for those who ask for the token at that place; after the error,
or at the end of the text, there is nothing more to ask for.

A `TokenStream` is what a lazy reading will hand out: the tokens in order, and the error behind
them if there is one.  `TokenStream.ofText` finds it in one go.  A `Scanner` is a reading in
progress, which knows the rest of the text and finds the next token on demand.
-/
import FunctionPlot.Formula.Error
import FunctionPlot.Formula.Token

namespace FunctionPlot

/-- The tokens that a lazy reading will hand out, and how it ends. -/
structure TokenStream where
  /-- The tokens, in order. -/
  tokens : List Token
  /-- The error behind the tokens, if the text is not read to its end. -/
  fault? : Option FormulaError
deriving DecidableEq

namespace TokenStream

/-- The stream of a list of tokens. -/
def ofList (tokens : List Token) : TokenStream := ⟨tokens, none⟩

/-- The stream that is at its end. -/
def ended : TokenStream := ⟨[], none⟩

/-- A token in front of a stream. -/
def cons (t : Token) (s : TokenStream) : TokenStream := { s with tokens := t :: s.tokens }

/-- Asks a stream for its next token: a token, nothing at the end, or the error, which ends the
stream. -/
def next (s : TokenStream) : Except FormulaError (Option Token) × TokenStream :=
  match s.tokens, s.fault? with
  | t :: tokens, _ => (.ok (some t), { s with tokens })
  | [], none => (.ok none, ended)
  | [], some fault => (.error fault, ended)

/-- The error at a character that starts no token. -/
def stray (source : Text) (position : Nat) (u : CodeUnit) : FormulaError :=
  ⟨.strayCharacter [u], position, source⟩

/-- The stream of the rest of a source, of which `position` is the offset. -/
def ofRest (source : Text) (position : Nat) (rest : Text) : TokenStream :=
  match rest with
  | [] => ended
  | first :: rest =>
    if isBlank first then ofRest source (position + 1) rest
    else
      match lexeme? first rest with
      | none => ⟨[], some (stray source position first)⟩
      | some (kind, more) =>
        cons ⟨kind, first :: rest.take more, position⟩
          (ofRest source (position + 1 + more) (rest.drop more))
termination_by rest.length
decreasing_by all_goals grind

/-- The stream of a text. -/
def ofText (source : Text) : TokenStream := ofRest source 0 source

end TokenStream

/-- A lazy reading of a text. -/
structure Scanner where
  /-- The whole text. -/
  source : Text
  /-- How much of the text is read. -/
  position : Nat
  /-- The rest of the text; nothing once an error was found. -/
  rest : Text
deriving DecidableEq

namespace Scanner

/-- What a scanner answers when it is asked for the next token. -/
inductive Answer where
  /-- The next token. -/
  | token (t : Token)
  /-- The error at a character that starts no token. -/
  | fault (e : FormulaError)
  /-- There are no more tokens. -/
  | done
deriving DecidableEq

/-- A reading that starts at the front of a text. -/
def ofText (source : Text) : Scanner := ⟨source, 0, source⟩

/-- The scanner behind the blanks at the front of the rest. -/
def skipBlanks (s : Scanner) : Scanner :=
  { s with
    position := s.position + (s.rest.takeWhile isBlank).length
    rest := s.rest.dropWhile isBlank }

/-- Asks for the next token. -/
def next (s : Scanner) : Answer × Scanner :=
  let s := s.skipBlanks
  match s.rest with
  | [] => (.done, s)
  | first :: rest =>
    match lexeme? first rest with
    | none => (.fault (TokenStream.stray s.source s.position first), { s with rest := [] })
    | some (kind, more) =>
      (.token ⟨kind, first :: rest.take more, s.position⟩,
        { s with position := s.position + 1 + more, rest := rest.drop more })

end Scanner

/-- What can be done with the readings of one text. -/
inductive ScanStep where
  /-- Start another reading. -/
  | start
  /-- Ask a reading for its next token; the readings are numbered in the order of their start. -/
  | ask (index : Nat)
deriving DecidableEq

/-- What a step answers. -/
inductive ScanAnswer where
  /-- The number of a new reading. -/
  | started (index : Nat)
  /-- What a reading answered. -/
  | answered (answer : Scanner.Answer)
deriving DecidableEq

namespace Scanner

/-- Takes a step among several readings of a text.  A reading that was never started has no
tokens. -/
def step (source : Text) (scanners : List Scanner) : ScanStep → ScanAnswer × List Scanner
  | .start => (.started scanners.length, scanners ++ [ofText source])
  | .ask index =>
    match scanners[index]? with
    | none => (.answered .done, scanners)
    | some scanner =>
      let (answer, scanner) := scanner.next
      (.answered answer, scanners.set index scanner)

/-- The answers to a sequence of steps. -/
def run (source : Text) (scanners : List Scanner) : List ScanStep → List ScanAnswer
  | [] => []
  | s :: steps =>
    let (answer, scanners) := step source scanners s
    answer :: run source scanners steps

end Scanner

end FunctionPlot
