/-
# Streams of characters

A program text reaches the lexer as a `CharStream`: the characters one after
another, with a `ReadFailure` wherever the device behind the text failed. A text
in memory never fails (`ofString`). A file is read line by line through a buffer
(`BufferedFile.readLine`), and its characters are handed out one at a time
(`CharReader.next`); a line that is not UTF-8 fails as a whole.
-/
import ClassScript.Text.Utf8

namespace ClassScript

/-- Why a character could not be read. -/
structure ReadFailure where
  reason : String
  deriving DecidableEq, Repr

/-- What reading a program text yields, in order. -/
abbrev CharStream := List (Except ReadFailure Char)

namespace ReadFailure

/-- A line of the text is not UTF-8. -/
def malformed : ReadFailure := ⟨"stream did not contain valid UTF-8"⟩

end ReadFailure

namespace CharStream

/-- The characters of a list, none of which fails. -/
def ofList (cs : List Char) : CharStream := cs.map .ok

/-- The characters of a text. -/
def ofString (s : String) : CharStream := ofList s.toList

/-- A text of which only the first `k` characters can be read. What the device yields after the
failure is `after`. -/
def failingAt (cs : List Char) (k : Nat) (failure : ReadFailure) (after : List Char) : CharStream :=
  ofList (cs.take k) ++ .error failure :: ofList after

/-- The lines of a sequence of octets. A line ends with its line feed, if it has one. -/
def byteLines (octets : List UInt8) : List (List UInt8) :=
  octets.foldr (fun b lines =>
    if b = 0x0a then [b] :: lines
    else match lines with
      | [] => [[b]]
      | line :: rest => (b :: line) :: rest) []

end CharStream

/-- A file that is read through a buffer. -/
structure BufferedFile where
  /-- How many octets the buffer can hold. -/
  capacity : Nat
  /-- The octets in the buffer that have not been taken. -/
  buffer : List UInt8 := []
  /-- The octets that have not been read into the buffer. -/
  unread : List UInt8

namespace BufferedFile

/-- The octets that have not been taken. -/
def rest (f : BufferedFile) : List UInt8 := f.buffer ++ f.unread

/-- Fills the buffer if nothing is left in it. -/
def fill (f : BufferedFile) : BufferedFile :=
  if f.buffer.isEmpty then
    { f with buffer := f.unread.take f.capacity, unread := f.unread.drop f.capacity }
  else f

theorem rest_fill (f : BufferedFile) : f.fill.rest = f.rest := by
  unfold fill
  split <;> simp_all [rest]

/-- Takes the octets through the next line feed, or all of them if there is none. What has to be
taken may fill the buffer many times over. Nothing is taken at the end of the file. -/
def readLine (f : BufferedFile) : List UInt8 × BufferedFile :=
  match f.fill.buffer.dropWhile (· ≠ 0x0a) with
  | feed :: kept =>
    (f.fill.buffer.takeWhile (· ≠ 0x0a) ++ [feed], { f.fill with buffer := kept })
  | [] =>
    match _h : f.fill.buffer with
    | [] => ([], f.fill)
    | b :: line =>
      let more := readLine { f.fill with buffer := [] }
      (b :: line ++ more.1, more.2)
termination_by f.rest.length
decreasing_by
  rw [← rest_fill f]
  simp only [rest, _h, List.length_append, List.length_nil, List.length_cons]
  omega

/-- No octet is lost: a line and what is left after it are what was left before it. -/
theorem readLine_rest (f : BufferedFile) : f.readLine.1 ++ f.readLine.2.rest = f.rest := by
  rw [← rest_fill f]
  fun_induction readLine f with
  | case1 f feed kept h =>
    have hcut := List.takeWhile_append_dropWhile (p := (· ≠ 0x0a)) (l := f.fill.buffer)
    rw [h] at hcut
    calc
      _ = f.fill.buffer.takeWhile (· ≠ 0x0a) ++ feed :: kept ++ f.fill.unread := by simp [rest]
      _ = f.fill.rest := by rw [hcut, rest]
  | case2 f _ hnil => rfl
  | case3 f _ b line hbuffer more ih =>
    rw [rest_fill] at ih
    rw [List.append_assoc, ih, rest, rest, hbuffer, List.nil_append]

end BufferedFile

/-- A file of which the characters are handed out one at a time. -/
structure CharReader where
  file : BufferedFile
  /-- The characters of the line read last that have not been handed out. -/
  chars : List Char := []

namespace CharReader

/-- Hands out a character of the line read last. When there is none left, the next line is read;
one that is not UTF-8 is handed out as one failure. -/
def next (r : CharReader) : Option (Except ReadFailure Char) × CharReader :=
  match r.chars with
  | c :: cs => (some (.ok c), { r with chars := cs })
  | [] =>
    match r.file.readLine with
    | ([], file) => (none, { file })
    | (b :: line, file) =>
      match Utf8.decode? (b :: line) with
      | none => (some (.error .malformed), { file })
      | some [] => (none, { file })
      | some (c :: cs) => (some (.ok c), { file, chars := cs })

/-- Whoever is handed something leaves less behind: a line of the file, or a character of the
line read last. -/
theorem next_smaller {r r' : CharReader} {item : Except ReadFailure Char}
    (h : r.next = (some item, r')) :
    Prod.Lex (· < ·) (· < ·) (r'.file.rest.length, r'.chars.length)
      (r.file.rest.length, r.chars.length) := by
  have hrest := r.file.readLine_rest
  unfold next at h
  split at h
  · next c cs hchars =>
    obtain ⟨-, rfl⟩ := Prod.mk.inj h
    exact .right _ (by simp [hchars])
  · split at h
    · simp at h
    · next b line file hline =>
      have hless : file.rest.length < r.file.rest.length := by
        rw [hline] at hrest
        simp only [← hrest, List.length_append, List.length_cons]
        omega
      split at h
      · obtain ⟨-, rfl⟩ := Prod.mk.inj h
        exact .left _ _ hless
      · simp at h
      · obtain ⟨-, rfl⟩ := Prod.mk.inj h
        exact .left _ _ hless

/-- Everything that is handed out until nothing is, behind what was handed out before. -/
def drain (taken : CharStream) (r : CharReader) : CharStream :=
  match _h : r.next with
  | (none, _) => taken.reverse
  | (some item, r') => r'.drain (item :: taken)
termination_by (r.file.rest.length, r.chars.length)
decreasing_by exact next_smaller _h

end CharReader

namespace CharStream

/-- A file with these octets that is read through a buffer of a given size. -/
def ofBuffered (capacity : Nat) (octets : List UInt8) : CharStream :=
  CharReader.drain [] { file := { capacity, unread := octets } }

/-- The size of the buffer that a file is read through. -/
def bufferCapacity : Nat := 8192

/-- What a file with these octets yields. -/
def ofBytes (octets : List UInt8) : CharStream := ofBuffered bufferCapacity octets

/-- All characters of the stream, or the first failure. -/
def text : CharStream → Except ReadFailure (List Char)
  | [] => .ok []
  | .ok c :: rest => (text rest).map (c :: ·)
  | .error failure :: _ => .error failure

end CharStream
end ClassScript
