/-
# Lexing

`CharStream.lexemes` cuts a stream of characters into lexemes. Blank characters
and comments, which run from `//` to the end of the line, separate tokens. A
character that begins no token and a text constant that never ends become errors,
and lexing goes on behind them. The last lexeme is the end of the input, or the
failure that cut the stream short: nothing is read behind a failure, and a token
that a failure interrupts is lost.
-/
import ClassScript.Decimal.Numeral
import ClassScript.Text.Blank
import ClassScript.Token

namespace ClassScript

namespace CharStream

/-- Whether a stream yields a character with a property at one place. -/
def yields (p : Char → Bool) : Except ReadFailure Char → Bool
  | .ok c => p c
  | .error _ => false

/-- The longest run of characters with a property at the front of a stream, and what follows. -/
def run (p : Char → Bool) (s : CharStream) : List Char × CharStream :=
  ((s.takeWhile (yields p)).filterMap Except.toOption, s.dropWhile (yields p))

/-- The failure at the front of a stream. -/
def failure? : CharStream → Option ReadFailure
  | .error failure :: _ => some failure
  | _ => none

end CharStream

/-- A place in a text: what is still to be read, the number of characters read and the line. -/
structure Lexer where
  rest : CharStream
  index : Nat := 0
  line : Nat := 1

namespace Lexer

def isNameStart (c : Char) : Bool := c.isAlpha || c == '_'

def isNameChar (c : Char) : Bool := c.isAlphanum || c == '_'

/-- The line behind a character on line `line`. -/
def lineAfter (line : Nat) (c : Char) : Nat := if c = '\n' then line + 1 else line

/-- Whether a comment begins at the front of a stream. -/
def atComment : CharStream → Bool
  | .ok '/' :: .ok '/' :: _ => true
  | _ => false

/-- The place of the next token or failure, behind all blanks and comments. -/
def skip (inComment : Bool) (index line : Nat) : CharStream → Lexer
  | [] => ⟨[], index, line⟩
  | .error failure :: s => ⟨.error failure :: s, index, line⟩
  | .ok c :: s =>
    if inComment then skip (c ≠ '\n') (index + 1) (lineAfter line c) s
    else if Text.isBlank c then skip false (index + 1) (lineAfter line c) s
    else if atComment (.ok c :: s) then skip true (index + 1) line s
    else ⟨.ok c :: s, index, line⟩

/-- What one lexeme leaves: a place to go on from, or nothing. -/
inductive Step where
  | more (lexeme : Lexeme) (next : Lexer)
  | last (lexeme : Lexeme)

/-- The failure that is met after `count` characters of a token. -/
def failed (l : Lexer) (count : Nat) (failure : ReadFailure) : Step :=
  .last (.error ⟨.unreadable failure, .point (l.index + count)⟩)

/-- The place behind the characters `cs`. -/
def past (l : Lexer) (cs : List Char) (rest : CharStream) : Lexer :=
  ⟨rest, l.index + cs.length, cs.foldl lineAfter l.line⟩

/-- The token made of the characters `cs`. -/
def token (l : Lexer) (t : Token) (cs : List Char) (rest : CharStream) : Step :=
  .more (.ok ⟨t, ⟨l.index, l.index + cs.length⟩, l.line⟩) (l.past cs rest)

/-- The token made of the characters `cs`, if the character behind it can be read. -/
def tokenBefore (l : Lexer) (t : Token) (cs : List Char) (rest : CharStream) : Step :=
  match rest.failure? with
  | some failure => l.failed cs.length failure
  | none => l.token t cs rest

/-- The error made of the characters `cs`. -/
def wrong (l : Lexer) (problem : LexProblem) (cs : List Char) (rest : CharStream) : Step :=
  .more (.error ⟨problem, ⟨l.index, l.index + cs.length⟩⟩) (l.past cs rest)

/-- A text constant whose opening quote has been read: it has no escapes and may hold line ends. -/
def text (l : Lexer) (s : CharStream) : Step :=
  let (body, rest) := s.run (· ≠ '"')
  match rest with
  | [] => l.wrong .unterminatedText ('"' :: body) []
  | .error failure :: _ => l.failed (body.length + 1) failure
  | .ok c :: rest => l.token (.text (String.ofList body)) ('"' :: body ++ [c]) rest

/-- The number that digits with at most one point stand for. -/
def numberOf (cs : List Char) : Float :=
  match Decimal.Numeral.parse cs with
  | .ok n => n.toFloat
  | .error _ => 0

/-- A number. A point belongs to it only if a digit follows. -/
def number (l : Lexer) (s : CharStream) : Step :=
  let (whole, rest) := s.run Char.isDigit
  match rest with
  | .ok '.' :: .error failure :: _ => l.failed whole.length failure
  | .ok '.' :: .ok d :: rest' =>
    if d.isDigit then
      let (fraction, rest'') := CharStream.run Char.isDigit (.ok d :: rest')
      let cs := whole ++ '.' :: fraction
      l.tokenBefore (.number (numberOf cs)) cs rest''
    else l.token (.number (numberOf whole)) whole rest
  | _ => l.tokenBefore (.number (numberOf whole)) whole rest

/-- The token that a word is. -/
def wordToken (word : String) : Token :=
  match Symbol.ofWord? word with
  | some s => .symbol s
  | none => .name word

/-- A name or a keyword. -/
def word (l : Lexer) (s : CharStream) : Step :=
  let (cs, rest) := s.run isNameChar
  l.tokenBefore (wordToken (String.ofList cs)) cs rest

/-- The lexeme that begins at the character `c`. -/
def lexemeAt (l : Lexer) (c : Char) (s : CharStream) : Step :=
  match Symbol.ofChar? c with
  | some symbol => l.token (.symbol symbol) [c] s
  | none =>
    match Symbol.withEqual? c with
    | some (alone, joined) =>
      match s with
      | .ok '=' :: s' => l.token (.symbol joined) [c, '='] s'
      | _ => l.tokenBefore (.symbol alone) [c] s
    | none =>
      if c = '"' then l.text s
      else if c.isDigit then l.number (.ok c :: s)
      else if isNameStart c then l.word (.ok c :: s)
      else l.wrong (.unexpectedChar c) [c] s

/-- The next lexeme. A failure behind a slash is met when looking for a comment, before the slash
is read. -/
def step (l : Lexer) : Step :=
  let l := skip false l.index l.line l.rest
  match l.rest with
  | [] => .last (.ok ⟨.endOfInput, .point l.index, l.line⟩)
  | .error failure :: _ => l.failed 0 failure
  | .ok '/' :: .error failure :: _ => l.failed 0 failure
  | .ok c :: s => l.lexemeAt c s

/-- The lexemes from a place on, at most `n` of them. -/
def lexemes : Nat → Lexer → List Lexeme
  | 0, _ => []
  | n + 1, l =>
    match l.step with
    | .last lexeme => [lexeme]
    | .more lexeme next => lexeme :: lexemes n next

end Lexer

/-- The lexemes of a stream of characters. Each one but the last takes a character at least, so
there is one more of them than characters at most. -/
def CharStream.lexemes (s : CharStream) : List Lexeme := Lexer.lexemes (s.length + 1) ⟨s, 0, 1⟩

end ClassScript
