/-
# Spans of source text

A `Span` is a stretch of characters of a source text, given by the index of its
first character and the index one past its last. Every token, every node of a
syntax tree and every diagnostic that has a place carries one. Indices count
Unicode scalar values from zero.
-/

namespace ClassScript

/-- The characters with indices `start ≤ i < stop`. -/
structure Span where
  start : Nat
  stop : Nat
  deriving DecidableEq, Repr, Inhabited

namespace Span

/-- The empty span in front of character `i`. -/
def point (i : Nat) : Span := ⟨i, i⟩

/-- The number of characters in the span. -/
def length (s : Span) : Nat := s.stop - s.start

def isEmpty (s : Span) : Bool := s.start == s.stop

/-- The smallest span that covers both. -/
def join (s t : Span) : Span := ⟨min s.start t.start, max s.stop t.stop⟩

/-- The smallest span that covers all spans of a list, if there is one. -/
def joinAll : List Span → Option Span
  | [] => none
  | s :: ss => some (ss.foldl join s)

end Span
end ClassScript
