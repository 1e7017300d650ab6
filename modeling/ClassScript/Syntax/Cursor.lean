/-
# Reading lexemes

The state of a parse and the steps that read one lexeme at most. A `Cursor` holds
the lexemes still to be read, the span of the last token read, the constructs that
have been entered and not finished, innermost first, and the next identity for an
expression. A `Parser` moves a cursor and answers with a value, with a refusal, or
not at all if it was given too little fuel.

Looking at a lexeme that is an error takes it off the cursor and is a refusal. A
stream that was cut short goes on with ends of input, which stand behind the last
token read.
-/
import ClassScript.Syntax.Fault
import ClassScript.Syntax.Tree

namespace ClassScript

structure Cursor where
  rest : List Lexeme
  last : Span := .point 0
  constructs : List Construct := [.topLevel]
  nextId : Nat := 0

/-- What a parser refuses, and where. -/
structure Refusal where
  problem : SyntaxProblem
  span : Span

/-- What a parser answers. -/
inductive Reply (α : Type) where
  | ok (value : α) (cursor : Cursor)
  | refused (refusal : Refusal) (cursor : Cursor)
  | exhausted

/-- A step of a parse. -/
def Parser (α : Type) : Type := Cursor → Reply α

namespace Parser

variable {α β : Type}

@[always_inline, inline] protected def pure (a : α) : Parser α := fun c => .ok a c

@[always_inline, inline] protected def bind (p : Parser α) (f : α → Parser β) : Parser β := fun c =>
  match p c with
  | .ok a c' => f a c'
  | .refused r c' => .refused r c'
  | .exhausted => .exhausted

instance : Monad Parser where
  pure := Parser.pure
  bind := Parser.bind

/-- No answer: the fuel is spent. -/
def exhausted : Parser α := fun _ => .exhausted

def refuse (problem : SyntaxProblem) (span : Span) : Parser α := fun c => .refused ⟨problem, span⟩ c

/-- The next token, which stays where it is. -/
def peek : Parser PlacedToken := fun c =>
  match c.rest with
  | [] => .ok ⟨.endOfInput, .point c.last.stop, 0⟩ c
  | .ok t :: _ => .ok t c
  | .error e :: rest => .refused ⟨.lexical e, e.span⟩ { c with rest }

/-- Reads the next token. -/
def next : Parser PlacedToken := fun c =>
  match c.rest with
  | [] => .ok ⟨.endOfInput, .point c.last.stop, 0⟩ { c with last := .point c.last.stop }
  | .ok t :: rest => .ok t { c with rest, last := t.span }
  | .error e :: rest => .refused ⟨.lexical e, e.span⟩ { c with rest }

/-- The span of the last token read. -/
def last : Parser Span := fun c => .ok c.last c

/-- The mark of a new expression. Identities are natural numbers, so they never run out. -/
def mint (span : Span) : Parser Mark := fun c =>
  .ok ⟨c.nextId, span⟩ { c with nextId := c.nextId + 1 }

def enter (construct : Construct) : Parser Unit := fun c =>
  .ok () { c with constructs := construct :: c.constructs }

/-- Leaves the construct entered last. -/
def leave : Parser Unit := fun c => .ok () { c with constructs := c.constructs.tail }

/-- Parses a construct. After a refusal the construct stays entered. -/
@[inline] def within (construct : Construct) (p : Parser α) : Parser α := do
  enter construct
  let a ← p
  leave
  pure a

/-- Whether a token is the symbol `s`. -/
def isSymbol (s : Symbol) (t : PlacedToken) : Bool :=
  match t.token with
  | .symbol s' => s' = s
  | _ => false

def isEnd (t : PlacedToken) : Bool :=
  match t.token with
  | .endOfInput => true
  | _ => false

/-- Whether the next token is the symbol `s`. -/
def sees (s : Symbol) : Parser Bool := do
  let t ← peek
  pure (isSymbol s t)

/-- Reads the symbol `s` if it is next, and gives its span. -/
def takeIf (s : Symbol) : Parser (Option Span) := do
  let t ← peek
  if isSymbol s t then
    let _ ← next
    pure (some t.span)
  else pure none

/-- Reads the symbol `s`, which has to be next. -/
def expect (s : Symbol) : Parser Span := do
  let t ← peek
  if isSymbol s t then
    let _ ← next
    pure t.span
  else refuse (.expectedSymbol s) t.span

/-- Reads a name, which has to be next. -/
def expectName : Parser Declared := do
  let t ← peek
  match t.token with
  | .name s =>
    let _ ← next
    pure ⟨s, t.span⟩
  | _ => refuse .expectedName t.span

/-- What `p` reads behind the symbol `s`, if that is next. -/
def behind (s : Symbol) (p : Parser α) : Parser (Option α) := do
  match ← takeIf s with
  | some _ =>
    let a ← p
    pure (some a)
  | none => pure none

/-- What `p` reads, unless the symbol `s` is next. -/
def unlessNext (s : Symbol) (p : Parser α) : Parser (Option α) := do
  if ← sees s then pure none
  else
    let a ← p
    pure (some a)

/-- One item or more with commas between them, at most `maxArguments`. The items read so far are
in `found`, the last one first. -/
def commaList (item : Parser α) (place : α → Span) (tooMany : SyntaxProblem) :
    Nat → List α → Parser (List α)
  | 0, _ => exhausted
  | f + 1, found => do
    let a ← item
    if maxArguments ≤ found.length then refuse tooMany (place a)
    else
      match ← takeIf .comma with
      | some _ => commaList item place tooMany f (a :: found)
      | none => pure (a :: found).reverse

/-- Items with commas between them up to the symbol `s`, which is read too, and its span. -/
def commaListBefore (s : Symbol) (item : Parser α) (place : α → Span) (tooMany : SyntaxProblem)
    (f : Nat) : Parser (List α × Span) := do
  let items ← unlessNext s (commaList item place tooMany f [])
  let stop ← expect s
  pure (items.getD [], stop)

end Parser
end ClassScript
