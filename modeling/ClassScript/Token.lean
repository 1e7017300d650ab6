/-
# Tokens

The words of the language. A `Symbol` is a token that is always spelled the same
way: punctuation, an operator or a keyword. The other tokens carry what they
stand for. A lexeme is what lexing a text yields at one place: a token with its
span and line, or an error in its place.
-/
import ClassScript.CharStream
import ClassScript.Decimal.Layout
import ClassScript.Diagnostic.Message
import ClassScript.Text.Quoted
import ClassScript.Text.Span

namespace ClassScript

/-- A token with a fixed spelling. -/
inductive Symbol where
  | openParen | closeParen | openBrace | closeBrace | comma | dot | semicolon
  | plus | minus | star | slash | bang
  | less | lessEqual | greater | greaterEqual | equalEqual | bangEqual | equal
  | andWord | orWord | trueWord | falseWord | nilWord
  | varWord | ifWord | elseWord | whileWord | forWord
  | funWord | returnWord | classWord | thisWord | superWord | printWord
  deriving DecidableEq, Repr

namespace Symbol

/-- How a symbol is spelled. -/
def text : Symbol → String
  | .openParen => "(" | .closeParen => ")" | .openBrace => "\x7b" | .closeBrace => "\x7d"
  | .comma => "," | .dot => "." | .semicolon => ";"
  | .plus => "+" | .minus => "-" | .star => "*" | .slash => "/" | .bang => "!"
  | .less => "<" | .lessEqual => "<=" | .greater => ">" | .greaterEqual => ">="
  | .equalEqual => "==" | .bangEqual => "!=" | .equal => "="
  | .andWord => "and" | .orWord => "or" | .trueWord => "true" | .falseWord => "false"
  | .nilWord => "nil" | .varWord => "var" | .ifWord => "if" | .elseWord => "else"
  | .whileWord => "while" | .forWord => "for"
  | .funWord => "fun" | .returnWord => "return" | .classWord => "class" | .thisWord => "this"
  | .superWord => "super" | .printWord => "print"

/-- The symbols that are spelled like names. -/
def keywords : List Symbol :=
  [.andWord, .orWord, .trueWord, .falseWord, .nilWord, .varWord, .ifWord, .elseWord, .whileWord,
   .forWord, .funWord, .returnWord, .classWord, .thisWord, .superWord, .printWord]

/-- The keyword spelled `word`. -/
def ofWord? (word : String) : Option Symbol := keywords.find? (·.text == word)

/-- The symbol that a character is, whatever follows it. -/
def ofChar? : Char → Option Symbol
  | '(' => some .openParen
  | ')' => some .closeParen
  | '\x7b' => some .openBrace
  | '\x7d' => some .closeBrace
  | ',' => some .comma
  | '.' => some .dot
  | ';' => some .semicolon
  | '+' => some .plus
  | '-' => some .minus
  | '*' => some .star
  | '/' => some .slash
  | _ => none

/-- The symbols that a character is on its own and with an equals sign after it. -/
def withEqual? : Char → Option (Symbol × Symbol)
  | '!' => some (.bang, .bangEqual)
  | '=' => some (.equal, .equalEqual)
  | '<' => some (.less, .lessEqual)
  | '>' => some (.greater, .greaterEqual)
  | _ => none

end Symbol

/-- A word of the language. -/
inductive Token where
  | symbol (s : Symbol)
  | name (s : String)
  | text (s : String)
  | number (x : Float)
  | endOfInput

/-- How a token is shown. -/
def Token.display : Token → String
  | .symbol s => s.text
  | .name s => s
  | .text s => "\"" ++ s ++ "\""
  | .number x => Decimal.Layout.plain.writeFloat x
  | .endOfInput => "end of input"

/-- A token and where it stands. Lines count from one. -/
structure PlacedToken where
  token : Token
  span : Span
  line : Nat

/-- What can be wrong with the text at one place. -/
inductive LexProblem where
  | unexpectedChar (c : Char)
  | unterminatedText
  | unreadable (failure : ReadFailure)
  deriving DecidableEq, Repr

/-- A problem and where it stands. -/
structure LexError where
  problem : LexProblem
  span : Span
  deriving DecidableEq, Repr

namespace LexError

/-- The failure behind the error, if there is one. -/
def cause (e : LexError) : Option String :=
  match e.problem with
  | .unreadable failure => some failure.reason
  | _ => none

def message (e : LexError) : String :=
  let detail := match e.problem with
    | .unexpectedChar c => "unexpected character " ++ Text.quoteChar c
    | .unterminatedText => "unterminated string"
    | .unreadable _ => "error reading source text"
  Diagnostic.message "syntax error" detail e.cause

end LexError

/-- What lexing yields at one place of a text. -/
abbrev Lexeme := Except LexError PlacedToken

end ClassScript
