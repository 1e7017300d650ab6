/-
# Showing the source of an error

An `Excerpt` holds the whole source lines that a span touches, and where the span
lies in them. `Excerpt.render` shows each line behind its number, and below it a
line of carets under the characters of the span. A span that reaches beyond the
text is cut off at its end.
-/
import ClassScript.Diagnostic.LineTable
import ClassScript.Diagnostic.Message
import ClassScript.Text.Blank
import ClassScript.Text.Span

namespace ClassScript.Diagnostic

structure Excerpt where
  /-- The lines that the span touches, without line ends. -/
  lines : List (List Char)
  /-- The number of the first of them, counted from one. -/
  line : Nat
  /-- Where the span begins, counted from the beginning of the first line. -/
  start : Nat
  /-- Where the span stops, counted from the beginning of the first line. -/
  stop : Nat

namespace Excerpt

/-- The lines that `span` touches, looked up in a table of the lines of the text. -/
def find? (table : LineTable) (span : Span) : Option Excerpt := do
  let start := min span.start table.length
  let stop ← clamp? span.stop start table.length
  let first ← table.lineOf? start
  let last ← table.lineOf? (max start (stop - 1))
  let origin ← table.starts[first]?
  let begins ← minus? start origin
  let ends ← minus? stop origin
  pure ⟨table.linesFrom first last, first + 1, begins, ends⟩

/-- The lines of `text` that `span` touches. -/
def of (text : List Char) (span : Span) : Excerpt :=
  (find? (.ofText text) span).getD ⟨[], 0, 0, 0⟩

def isMultiline (e : Excerpt) : Bool := 1 < e.lines.length

/-- A number with blanks in front of it, at least three characters wide. -/
def margin (n : Nat) : List Char :=
  let digits := Nat.toDigits 10 n
  List.replicate (3 - digits.length) ' ' ++ digits

/-- One line with its number, and the carets below it. The span begins at column `start` and stops
at column `stop`, both cut off where the shown line ends; there is one caret at least. -/
def renderLine (number : Nat) (line : List Char) (start stop : Nat) : List Char :=
  let shown := Text.dropBlankEnd line
  let first := min start shown.length
  let last := max first (min stop shown.length)
  let number := margin number
  let carets := List.replicate (max 1 (last - first)) '^'
  number ++ ['|', ' ', ' ', ' ', ' '] ++ shown ++ '\n' ::
    List.replicate (number.length + 5 + first) ' ' ++ carets ++ ['\n']

/-- Lines with their numbers and carets, where the first of them begins `offset` characters behind
the beginning of the excerpt. -/
def renderLines (e : Excerpt) (number offset : Nat) : List (List Char) → List Char
  | [] => []
  | line :: rest =>
    renderLine number line (e.start - offset) (e.stop - offset) ++
      renderLines e (number + 1) (offset + line.length + 1) rest

/-- A message and the lines it is about. -/
def render (e : Excerpt) (message : String) : String :=
  Text.capitalize message ++ ".\n\n" ++ String.ofList (renderLines e e.line 0 e.lines)

end Excerpt

/-- A message, with the lines of `text` that it is about if it has a place. -/
def render (text : List Char) (message : String) (span : Option Span) : Option String :=
  span.map fun s => (Excerpt.of text s).render message

/-- What is printed for a message. `text` is the source that it is about, if it could be read. -/
def printed (text : Option (List Char)) (message : String) (span : Option Span) : String :=
  match text, span with
  | some text, some span => (Excerpt.of text span).render message ++ "\n"
  | _, _ => Text.capitalize message ++ ".\n\n"

end ClassScript.Diagnostic
