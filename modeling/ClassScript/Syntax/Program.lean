/-
# Parsing a program

`CharStream.parse` reads a whole program and reports every syntax error in it. After a
refusal it skips lexemes up to the next place where a statement is likely to begin
(`recover`) and goes on from there; the lexemes it skips that are errors themselves
are reported too. A program with an error has no tree.
-/
import ClassScript.Syntax.Statement
import ClassScript.Token.Lexer

namespace ClassScript

/-- The tokens that begin a statement and little else. -/
def PlacedToken.opensStatement (t : PlacedToken) : Bool :=
  match t.token with
  | .symbol .classWord | .symbol .funWord | .symbol .varWord | .symbol .forWord
  | .symbol .ifWord | .symbol .whileWord | .symbol .printWord | .symbol .returnWord => true
  | _ => false

/-- Where a parse goes on after a refusal, with the errors among the lexemes skipped. -/
structure Recovery where
  errors : List LexError
  rest : List Lexeme
  last : Span

/-- Skips at least one lexeme, unless none is left but the end of the input, and stops behind a
semicolon or in front of a token that opens a statement. A lexeme that is an error is skipped
together with the one behind it. -/
def recover (last : Span) : List Lexeme → Recovery
  | [] => ⟨[], [], last⟩
  | .error e :: rest =>
    let r := recover last rest
    { r with errors := e :: r.errors }
  | .ok t :: rest =>
    if Parser.isEnd t then ⟨[], .ok t :: rest, last⟩
    else if Parser.isSymbol .semicolon t then ⟨[], rest, t.span⟩
    else match rest with
      | .error e :: rest' =>
        let r := recover t.span rest'
        { r with errors := e :: r.errors }
      | .ok u :: rest' =>
        if u.opensStatement then ⟨[], .ok u :: rest', t.span⟩ else recover t.span (.ok u :: rest')
      | [] => ⟨[], [], t.span⟩

/-- An error that lies in no construct. -/
def SyntaxError.atTopLevel (e : LexError) : SyntaxError := ⟨.lexical e, .topLevel, e.span⟩

/-- A refusal and the construct it lies in. -/
def Refusal.error (r : Refusal) (c : Cursor) : SyntaxError :=
  ⟨r.problem, c.constructs.headD .topLevel, r.span⟩

/-- What parsing yields: statements and errors in the order of the text, and the next identity for
an expression. -/
structure Parse where
  results : List (Except SyntaxError Stmt)
  nextId : Nat

namespace Parse

/-- Parses statement after statement, at most `n` of them and each with the fuel `f`. -/
def statements (f : Nat) : Nat → Cursor → Parse
  | 0, c => ⟨[], c.nextId⟩
  | n + 1, c =>
    let c := { c with constructs := [.topLevel] }
    match c.rest with
    | [] => ⟨[], c.nextId⟩
    | .error e :: rest =>
      let p := statements f n { c with rest }
      { p with results := .error (.atTopLevel e) :: p.results }
    | .ok t :: _ =>
      if Parser.isEnd t then ⟨[], c.nextId⟩
      else match Parser.declaration f c with
        | .ok s c' =>
          let p := statements f n c'
          { p with results := .ok s :: p.results }
        | .refused r c' =>
          let q := recover c'.last c'.rest
          let p := statements f n { c' with rest := q.rest, last := q.last }
          { p with results := .error (r.error c') ::
              (q.errors.map fun e => .error (.atTopLevel e)) ++ p.results }
        | .exhausted => ⟨[], c.nextId⟩

def errors (p : Parse) : List SyntaxError :=
  p.results.filterMap fun
    | .error e => some e
    | .ok _ => none

def trees (p : Parse) : List Stmt :=
  p.results.filterMap fun
    | .error _ => none
    | .ok s => some s

/-- The program, or all its errors. -/
def program (p : Parse) : Except (List SyntaxError) (List Stmt) :=
  if p.errors.isEmpty then .ok p.trees else .error p.errors

end Parse

/-- The fuel that suffices for a number of lexemes: eight for each of them and for two more, rounded
up so that the first change of the stack comes as late as it can. -/
def parseFuel (lexemes : Nat) : Nat := stageLength * (8 * (lexemes + 2) / stageLength + 1)

theorem le_parseFuel (lexemes : Nat) : 8 * (lexemes + 2) ≤ parseFuel lexemes := by
  unfold parseFuel stageLength
  omega

/-- Parses a list of lexemes, with identities for expressions from `firstId` on. -/
def parseLexemes (firstId : Nat) (lexemes : List Lexeme) : Parse :=
  Parse.statements (parseFuel lexemes.length) (lexemes.length + 1)
    { rest := lexemes, nextId := firstId }

/-- Parses a stream of characters, with identities for expressions from `firstId` on. -/
def CharStream.parse (firstId : Nat) (s : CharStream) : Parse := parseLexemes firstId s.lexemes

end ClassScript
