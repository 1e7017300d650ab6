/-
# The grammar of statements

    declaration = classDecl | "fun" function | varDecl | statement
    classDecl   = "class" NAME ( "<" NAME )? "{" function* "}"
    function    = NAME "(" parameters? ")" block
    parameters  = NAME ( "," NAME )*
    varDecl     = "var" NAME ( "=" expression )? ";"
    statement   = exprStmt | forStmt | ifStmt | printStmt | returnStmt | whileStmt | block
    exprStmt    = expression ";"
    printStmt   = "print" expression ";"
    returnStmt  = "return" expression? ";"
    ifStmt      = "if" "(" expression ")" statement ( "else" statement )?
    whileStmt   = "while" "(" expression ")" statement
    forStmt     = "for" "(" ( varDecl | exprStmt | ";" ) expression? ";" expression? ")" statement
    block       = "{" declaration* "}"

The parsers of `declaration` and `statement` call themselves and take fuel, as those of
expressions do. An `else` belongs to the nearest `if`.
-/
import ClassScript.Syntax.Expression

namespace ClassScript.Parser

/-- Items up to a closing brace or the end of the input. The items read so far are in `found`, the
last one first. -/
def upToBrace {α : Type} (item : Parser α) : Nat → List α → Parser (List α)
  | 0, _ => exhausted
  | f + 1, found => do
    let t ← peek
    if isSymbol .closeBrace t || isEnd t then pure found.reverse
    else
      let a ← item
      upToBrace item f (a :: found)

def block (declaration : Parser Stmt) (f : Nat) : Parser (List Stmt) :=
  within .block do
    let _ ← expect .openBrace
    let body ← upToBrace declaration f []
    let _ ← expect .closeBrace
    pure body

def function (declaration : Parser Stmt) (f : Nat) : Parser FunctionDecl :=
  within .funDecl do
    let name ← expectName
    let _ ← expect .openParen
    let (params, _) ← commaListBefore .closeParen expectName Declared.span .tooManyParameters f
    let body ← block declaration f
    pure (.mk name params body)

/-- The name of a superclass. -/
def superclass : Parser NameUse := do
  let name ← expectName
  let mark ← mint name.span
  pure ⟨mark, name.name⟩

def classDecl (declaration : Parser Stmt) (f : Nat) : Parser Stmt :=
  within .classDecl do
    let start ← expect .classWord
    let name ← expectName
    let parent ← behind .less superclass
    let _ ← expect .openBrace
    let methods ← upToBrace (function declaration f) f []
    let stop ← expect .closeBrace
    pure (.classDecl (start.join stop) name parent methods)

def funDecl (declaration : Parser Stmt) (f : Nat) : Parser Stmt := do
  let start ← next
  let decl ← function declaration f
  let stop ← last
  pure (.function (start.span.join stop) decl)

def varDecl (expression : Parser Expr) : Parser Stmt :=
  within .varDecl do
    let start ← expect .varWord
    let name ← expectName
    let init ← behind .equal expression
    let stop ← expect .semicolon
    pure (.var (start.join stop) name.name init)

def exprStmt (expression : Parser Expr) : Parser Stmt :=
  within .exprStmt do
    let e ← expression
    let stop ← expect .semicolon
    pure (.expression (e.span.join stop) e)

def printStmt (expression : Parser Expr) : Parser Stmt :=
  within .printStmt do
    let start ← expect .printWord
    let e ← expression
    let stop ← expect .semicolon
    pure (.print (start.join stop) e)

def returnStmt (expression : Parser Expr) : Parser Stmt :=
  within .returnStmt do
    let start ← expect .returnWord
    let value ← unlessNext .semicolon expression
    let stop ← expect .semicolon
    pure (.return (start.join stop) value)

def ifStmt (expression : Parser Expr) (statement : Parser Stmt) : Parser Stmt :=
  within .ifStmt do
    let start ← expect .ifWord
    let _ ← expect .openParen
    let condition ← expression
    let _ ← expect .closeParen
    let yes ← statement
    let no ← behind .elseWord statement
    let stop ← last
    pure (.branch (start.join stop) condition yes no)

def whileStmt (expression : Parser Expr) (statement : Parser Stmt) : Parser Stmt :=
  within .whileStmt do
    let start ← expect .whileWord
    let _ ← expect .openParen
    let condition ← expression
    let _ ← expect .closeParen
    let body ← statement
    let stop ← last
    pure (.loop (start.join stop) condition body)

/-- The initializer of a `for` statement, up to its semicolon. -/
def forInit (expression : Parser Expr) : Parser (Option Stmt) := do
  let t ← peek
  match t.token with
  | .symbol .semicolon =>
    let _ ← next
    pure none
  | .symbol .varWord =>
    let s ← varDecl expression
    pure (some s)
  | _ =>
    let s ← exprStmt expression
    pure (some s)

/-- The condition of a `for` statement. A missing one is the constant `true` in the place of its
semicolon. -/
def forCondition (sign : Span) : Option Expr → Parser Expr
  | some e => pure e
  | none => do
    let mark ← mint sign
    pure (.literal mark (.bool true))

def forStmt (expression : Parser Expr) (statement : Parser Stmt) : Parser Stmt :=
  within .forStmt do
    let start ← expect .forWord
    let _ ← expect .openParen
    let init ← forInit expression
    let condition ← unlessNext .semicolon expression
    let sign ← expect .semicolon
    let increment ← unlessNext .closeParen expression
    let _ ← expect .closeParen
    let body ← statement
    let stop ← last
    let condition ← forCondition sign condition
    pure (.forLoop (start.join stop) init condition increment body)

def blockStmt (declaration : Parser Stmt) (f : Nat) : Parser Stmt := do
  let start ← peek
  let body ← block declaration f
  let stop ← last
  pure (.block (start.span.join stop) body)

mutual

def declaration : Nat → Parser Stmt
  | 0 => exhausted
  | f + 1 => fun c => staged f fun _ => (do
    let t ← peek
    match t.token with
    | .symbol .classWord => classDecl (declaration f) f
    | .symbol .funWord => funDecl (declaration f) f
    | .symbol .varWord => varDecl (expression f)
    | _ => statement f : Parser Stmt) c

def statement : Nat → Parser Stmt
  | 0 => exhausted
  | f + 1 => fun c => staged f fun _ => (do
    let t ← peek
    match t.token with
    | .symbol .forWord => forStmt (expression f) (statement f)
    | .symbol .ifWord => ifStmt (expression f) (statement f)
    | .symbol .printWord => printStmt (expression f)
    | .symbol .returnWord => returnStmt (expression f)
    | .symbol .whileWord => whileStmt (expression f) (statement f)
    | .symbol .openBrace => blockStmt (declaration f) f
    | _ => exprStmt (expression f) : Parser Stmt) c

end

end ClassScript.Parser
