/-
# The lines of a text

A `LineTable` holds the lines of a text and the index at which each of them begins. The
line of a character is found by halving (`LineTable.lineOf?`).

Looking something up answers nothing where there is nothing to answer: a line for a
character in front of all lines, an entry behind the end of the table, a difference that
is negative. A table that was made of a text has an answer for every place in it.
-/

namespace ClassScript.Diagnostic

/-- A line without the carriage return that may stand in front of its line feed. -/
def dropReturn (line : List Char) : List Char :=
  if line.getLast? = some '\r' then line.dropLast else line

/-- The lines of a text, without their line ends. A text that ends in a line feed has an empty
last line. -/
def linesOf : List Char → List (List Char)
  | [] => [[]]
  | c :: cs =>
    if c = '\n' then [] :: linesOf cs
    else match linesOf cs with
      | [] => [[c]]
      | line :: rest => (c :: line) :: rest

/-- The lines of a text as they are shown: a carriage return belongs to the line feed behind it. -/
def shownLines (text : List Char) : List (List Char) :=
  let lines := linesOf text
  lines.dropLast.map dropReturn ++ lines.getLast?.toList

/-- The lines that hold something: the last line is left out if it is empty. -/
def filledLines (text : List Char) : List (List Char) :=
  let lines := shownLines text
  if lines.getLast? = some [] then lines.dropLast else lines

/-- Where lines begin behind the line feeds of `text`, whose first character has the index `i`. -/
def startsBehind (i : Nat) : List Char → List Nat
  | [] => []
  | c :: cs => if c = '\n' then (i + 1) :: startsBehind (i + 1) cs else startsBehind (i + 1) cs

/-- The difference of two numbers, unless it is negative. -/
def minus? (a b : Nat) : Option Nat := if b ≤ a then some (a - b) else none

/-- The number from `lo` to `hi` that is nearest to `x`, if there are any. -/
def clamp? (x lo hi : Nat) : Option Nat := if lo ≤ hi then some (max lo (min x hi)) else none

/-- Looks for `i` among the entries `lo ≤ k < hi` of an ascending table, by halving: the place
where it stands, or else the one where it would have to be put in. -/
def search (table : Array Nat) (i lo hi : Nat) (h : hi ≤ table.size) : Except Nat Nat :=
  if hlt : lo < hi then
    let mid := lo + (hi - lo) / 2
    have hmid : mid < table.size := by omega
    if table[mid] = i then .ok mid
    else if table[mid] < i then search table i (mid + 1) hi h
    else search table i lo mid (by omega)
  else .error lo
termination_by hi - lo

structure LineTable where
  /-- The index of the first character of each line. -/
  starts : Array Nat
  /-- The lines without their line ends. Lines behind these are empty. -/
  lines : Array (List Char)
  /-- The number of characters. -/
  length : Nat

namespace LineTable

def ofText (text : List Char) : LineTable :=
  ⟨(0 :: startsBehind 0 text).toArray, (filledLines text).toArray, text.length⟩

/-- The index of the line that holds character `i`: the line that begins there, or the one in front
of the place where such a line would have to be put in. -/
def lineOf? (t : LineTable) (i : Nat) : Option Nat :=
  match search t.starts i 0 t.starts.size (Nat.le_refl _) with
  | .ok line => some line
  | .error place => minus? place 1

/-- The lines from index `first` to index `last`. -/
def linesFrom (t : LineTable) (first last : Nat) : List (List Char) :=
  (List.range' first (last + 1 - first)).map fun k => t.lines.getD k []

end LineTable
end ClassScript.Diagnostic
