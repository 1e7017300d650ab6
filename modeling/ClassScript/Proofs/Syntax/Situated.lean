/-
# Parsing with the constructs under way

The grammar once more, this time with the list of the constructs that have been begun and not
finished, the innermost first. A parser is told the list and hands on a longer one to what it
parses a construct with (`Situated.within`), so nothing has to be taken off the list again. A
refusal is recorded with the list as it is where it is refused.

The cursor keeps its own stack of constructs beside it, on which they are entered and left.
Leaving one is only allowed if there is another one below it (`Situated.leave`).

Every rule here is the rule of the same name in `Parser`. Steps that begin no construct are the
steps that are taken there (`Situated.own`).

Key definitions: `Situated`, `Situated.within`, `Situated.Routine`.
-/
import ClassScript.Proofs.Syntax.Termination

namespace ClassScript

/-- What a parser answers that knows which constructs are under way. -/
inductive Situated.Reply (α : Type) where
  | ok (value : α) (cursor : Cursor)
  /-- A refusal, and the constructs that were under way, the innermost first. -/
  | refused (refusal : Refusal) (under : List Construct) (cursor : Cursor)
  /-- A construct was to be left and no other one was below it. -/
  | broken
  | exhausted

/-- A step of a parse that is told which constructs are under way. -/
def Situated (α : Type) : Type := List Construct → Cursor → Situated.Reply α

namespace Situated

variable {α β : Type}

protected def pure (a : α) : Situated α := fun _ c => .ok a c

protected def bind (t : Situated α) (f : α → Situated β) : Situated β := fun under c =>
  match t under c with
  | .ok a c' => f a under c'
  | .refused r under' c' => .refused r under' c'
  | .broken => .broken
  | .exhausted => .exhausted

instance : Monad Situated where
  pure := Situated.pure
  bind := Situated.bind

/-- A step that begins no construct: what it refuses is refused here. -/
def own (p : Parser α) : Situated α := fun under c =>
  match p c with
  | .ok a c' => .ok a c'
  | .refused r c' => .refused r under c'
  | .exhausted => .exhausted

/-- Leaves the construct entered last, below which there has to be another one. -/
def leave : Situated Unit := fun _ c =>
  if 1 < c.constructs.length then .ok () { c with constructs := c.constructs.tail } else .broken

/-- Parses a construct, which is under way all the while. -/
def within (k : Construct) (t : Situated α) : Situated α := do
  own (Parser.enter k)
  let a ← (fun under => t (k :: under) : Situated α)
  leave
  pure a

def behind (s : Symbol) (t : Situated α) : Situated (Option α) := do
  match ← own (Parser.takeIf s) with
  | some _ =>
    let a ← t
    pure (some a)
  | none => pure none

def unlessNext (s : Symbol) (t : Situated α) : Situated (Option α) := do
  if ← own (Parser.sees s) then pure none
  else
    let a ← t
    pure (some a)

def commaList (item : Situated α) (place : α → Span) (tooMany : SyntaxProblem) :
    Nat → List α → Situated (List α)
  | 0, _ => own Parser.exhausted
  | f + 1, found => do
    let a ← item
    if maxArguments ≤ found.length then own (Parser.refuse tooMany (place a))
    else
      match ← own (Parser.takeIf .comma) with
      | some _ => commaList item place tooMany f (a :: found)
      | none => pure (a :: found).reverse

def commaListBefore (s : Symbol) (item : Situated α) (place : α → Span) (tooMany : SyntaxProblem)
    (f : Nat) : Situated (List α × Span) := do
  let items ← unlessNext s (commaList item place tooMany f [])
  let stop ← own (Parser.expect s)
  pure (items.getD [], stop)

def upToBrace (item : Situated α) : Nat → List α → Situated (List α)
  | 0, _ => own Parser.exhausted
  | f + 1, found => do
    let t ← own Parser.peek
    if Parser.isSymbol .closeBrace t || Parser.isEnd t then pure found.reverse
    else
      let a ← item
      upToBrace item f (a :: found)

/-! ### Expressions -/

def chain {Op : Type} (operand : Situated Expr) (find : Token → Option Op)
    (build : Mark → Op → Expr → Expr → Expr) : Nat → Expr → Situated Expr
  | 0, _ => own Parser.exhausted
  | f + 1, left => do
    let t ← own Parser.peek
    match find t.token with
    | none => pure left
    | some op =>
      let _ ← own Parser.next
      let right ← operand
      let mark ← own (Parser.mint (left.span.join right.span))
      chain operand find build f (build mark op left right)

def operand (unary : Situated Expr) (f : Nat) : Nat → Situated Expr
  | 0 => unary
  | level + 1 => do
    let left ← operand unary f level
    chain (operand unary f level) (BinaryOp.atLevel? (level + 1)) Expr.binary f left

def logicalAnd (unary : Situated Expr) (f : Nat) : Situated Expr := do
  let left ← operand unary f BinaryOp.loosest
  chain (operand unary f BinaryOp.loosest) (Parser.logicalOp? .and) Expr.logical f left

def logicalOr (unary : Situated Expr) (f : Nat) : Situated Expr := do
  let left ← logicalAnd unary f
  chain (logicalAnd unary f) (Parser.logicalOp? .or) Expr.logical f left

def primary (expression : Situated Expr) : Situated Expr := do
  let t ← own Parser.peek
  match t.token with
  | .symbol .nilWord => own (Parser.leaf t.span (.literal · .nil))
  | .symbol .trueWord => own (Parser.leaf t.span (.literal · (.bool true)))
  | .symbol .falseWord => own (Parser.leaf t.span (.literal · (.bool false)))
  | .number x => own (Parser.leaf t.span (.literal · (.number x)))
  | .text s => own (Parser.leaf t.span (.literal · (.text s)))
  | .name s => own (Parser.leaf t.span (.variable · s))
  | .symbol .thisWord => own (Parser.leaf t.span .this)
  | .symbol .superWord =>
    let method ← within .superAccess do
      let _ ← own Parser.next
      let _ ← own (Parser.expect .dot)
      own Parser.expectName
    let mark ← own (Parser.mint (t.span.join method.span))
    pure (.super mark method.name)
  | .symbol .openParen =>
    let (inner, stop) ← within .group do
      let _ ← own Parser.next
      let inner ← expression
      let stop ← own (Parser.expect .closeParen)
      pure (inner, stop)
    let mark ← own (Parser.mint (t.span.join stop))
    pure (.group mark inner)
  | _ => own (Parser.refuse .expectedExpression t.span)

def arguments (expression : Situated Expr) (f : Nat) : Situated (List Expr × Span) :=
  commaListBefore .closeParen expression Expr.span .tooManyArguments f

def suffixes (expression : Situated Expr) : Nat → Expr → Situated Expr
  | 0, _ => own Parser.exhausted
  | f + 1, e => do
    let t ← own Parser.peek
    match t.token with
    | .symbol .openParen =>
      let (args, stop) ← within .call do
        let _ ← own Parser.next
        arguments expression f
      let mark ← own (Parser.mint (e.span.join stop))
      suffixes expression f (.call mark e args)
    | .symbol .dot =>
      let name ← within .memberAccess do
        let _ ← own Parser.next
        own Parser.expectName
      let mark ← own (Parser.mint (e.span.join name.span))
      suffixes expression f (.get mark e name.name)
    | _ => pure e

def call (expression : Situated Expr) (f : Nat) : Situated Expr := do
  let e ← primary expression
  suffixes expression f e

mutual

def expression : Nat → Situated Expr
  | 0 => own Parser.exhausted
  | f + 1 => within .expr (assignment f)

def assignment : Nat → Situated Expr
  | 0 => own Parser.exhausted
  | f + 1 => do
    let target ← logicalOr (unary f) f
    match ← own (Parser.takeIf .equal) with
    | none => pure target
    | some sign =>
      let (build, span) ← within .assignment do
        let value ← assignment f
        let build ← own (Parser.assignTo target sign value)
        pure (build, target.span.join value.span)
      let mark ← own (Parser.mint span)
      pure (build mark)

def unary : Nat → Situated Expr
  | 0 => own Parser.exhausted
  | f + 1 => do
    let t ← own Parser.peek
    match UnaryOp.ofToken? t.token with
    | some op =>
      let _ ← own Parser.next
      let e ← unary f
      let mark ← own (Parser.mint (t.span.join e.span))
      pure (.unary mark op e)
    | none => call (expression f) f

end

/-! ### Statements -/

def block (declaration : Situated Stmt) (f : Nat) : Situated (List Stmt) :=
  within .block do
    let _ ← own (Parser.expect .openBrace)
    let body ← upToBrace declaration f []
    let _ ← own (Parser.expect .closeBrace)
    pure body

def function (declaration : Situated Stmt) (f : Nat) : Situated FunctionDecl :=
  within .funDecl do
    let name ← own Parser.expectName
    let _ ← own (Parser.expect .openParen)
    let (params, _) ←
      commaListBefore .closeParen (own Parser.expectName) Declared.span .tooManyParameters f
    let body ← block declaration f
    pure (.mk name params body)

def classDecl (declaration : Situated Stmt) (f : Nat) : Situated Stmt :=
  within .classDecl do
    let start ← own (Parser.expect .classWord)
    let name ← own Parser.expectName
    let parent ← behind .less (own Parser.superclass)
    let _ ← own (Parser.expect .openBrace)
    let methods ← upToBrace (function declaration f) f []
    let stop ← own (Parser.expect .closeBrace)
    pure (.classDecl (start.join stop) name parent methods)

def funDecl (declaration : Situated Stmt) (f : Nat) : Situated Stmt := do
  let start ← own Parser.next
  let decl ← function declaration f
  let stop ← own Parser.last
  pure (.function (start.span.join stop) decl)

def varDecl (expression : Situated Expr) : Situated Stmt :=
  within .varDecl do
    let start ← own (Parser.expect .varWord)
    let name ← own Parser.expectName
    let init ← behind .equal expression
    let stop ← own (Parser.expect .semicolon)
    pure (.var (start.join stop) name.name init)

def exprStmt (expression : Situated Expr) : Situated Stmt :=
  within .exprStmt do
    let e ← expression
    let stop ← own (Parser.expect .semicolon)
    pure (.expression (e.span.join stop) e)

def printStmt (expression : Situated Expr) : Situated Stmt :=
  within .printStmt do
    let start ← own (Parser.expect .printWord)
    let e ← expression
    let stop ← own (Parser.expect .semicolon)
    pure (.print (start.join stop) e)

def returnStmt (expression : Situated Expr) : Situated Stmt :=
  within .returnStmt do
    let start ← own (Parser.expect .returnWord)
    let value ← unlessNext .semicolon expression
    let stop ← own (Parser.expect .semicolon)
    pure (.return (start.join stop) value)

def ifStmt (expression : Situated Expr) (statement : Situated Stmt) : Situated Stmt :=
  within .ifStmt do
    let start ← own (Parser.expect .ifWord)
    let _ ← own (Parser.expect .openParen)
    let condition ← expression
    let _ ← own (Parser.expect .closeParen)
    let yes ← statement
    let no ← behind .elseWord statement
    let stop ← own Parser.last
    pure (.branch (start.join stop) condition yes no)

def whileStmt (expression : Situated Expr) (statement : Situated Stmt) : Situated Stmt :=
  within .whileStmt do
    let start ← own (Parser.expect .whileWord)
    let _ ← own (Parser.expect .openParen)
    let condition ← expression
    let _ ← own (Parser.expect .closeParen)
    let body ← statement
    let stop ← own Parser.last
    pure (.loop (start.join stop) condition body)

def forInit (expression : Situated Expr) : Situated (Option Stmt) := do
  let t ← own Parser.peek
  match t.token with
  | .symbol .semicolon =>
    let _ ← own Parser.next
    pure none
  | .symbol .varWord =>
    let s ← varDecl expression
    pure (some s)
  | _ =>
    let s ← exprStmt expression
    pure (some s)

def forStmt (expression : Situated Expr) (statement : Situated Stmt) : Situated Stmt :=
  within .forStmt do
    let start ← own (Parser.expect .forWord)
    let _ ← own (Parser.expect .openParen)
    let init ← forInit expression
    let condition ← unlessNext .semicolon expression
    let sign ← own (Parser.expect .semicolon)
    let increment ← unlessNext .closeParen expression
    let _ ← own (Parser.expect .closeParen)
    let body ← statement
    let stop ← own Parser.last
    let condition ← own (Parser.forCondition sign condition)
    pure (.forLoop (start.join stop) init condition increment body)

def blockStmt (declaration : Situated Stmt) (f : Nat) : Situated Stmt := do
  let start ← own Parser.peek
  let body ← block declaration f
  let stop ← own Parser.last
  pure (.block (start.span.join stop) body)

mutual

def declaration : Nat → Situated Stmt
  | 0 => own Parser.exhausted
  | f + 1 => do
    let t ← own Parser.peek
    match t.token with
    | .symbol .classWord => classDecl (declaration f) f
    | .symbol .funWord => funDecl (declaration f) f
    | .symbol .varWord => varDecl (expression f)
    | _ => statement f

def statement : Nat → Situated Stmt
  | 0 => own Parser.exhausted
  | f + 1 => do
    let t ← own Parser.peek
    match t.token with
    | .symbol .forWord => forStmt (expression f) (statement f)
    | .symbol .ifWord => ifStmt (expression f) (statement f)
    | .symbol .printWord => printStmt (expression f)
    | .symbol .returnWord => returnStmt (expression f)
    | .symbol .whileWord => whileStmt (expression f) (statement f)
    | .symbol .openBrace => blockStmt (declaration f) f
    | _ => exprStmt (expression f)

end

/-- The routines of the parser, each with the one here that stands for it. -/
inductive Routine : {α : Type} → (Nat → Parser α) → (Nat → Situated α) → Prop where
  | declaration : Routine Parser.declaration declaration
  | classDecl :
      Routine (fun f => Parser.classDecl (Parser.declaration f) f)
        fun f => classDecl (Situated.declaration f) f
  | classBody (found : List FunctionDecl) :
      Routine (fun f => Parser.upToBrace (Parser.function (Parser.declaration f) f) f found)
        fun f => upToBrace (function (Situated.declaration f) f) f found
  | function :
      Routine (fun f => Parser.function (Parser.declaration f) f)
        fun f => function (Situated.declaration f) f
  | parameters (found : List Declared) :
      Routine (fun f => Parser.commaList Parser.expectName Declared.span .tooManyParameters f found)
        fun f => commaList (own Parser.expectName) Declared.span .tooManyParameters f found
  | varDecl :
      Routine (fun f => Parser.varDecl (Parser.expression f)) fun f => varDecl (expression f)
  | statement : Routine Parser.statement statement
  | block :
      Routine (fun f => Parser.block (Parser.declaration f) f)
        fun f => block (Situated.declaration f) f
  | blockBody (found : List Stmt) :
      Routine (fun f => Parser.upToBrace (Parser.declaration f) f found)
        fun f => upToBrace (Situated.declaration f) f found
  | exprStmt :
      Routine (fun f => Parser.exprStmt (Parser.expression f)) fun f => exprStmt (expression f)
  | printStmt :
      Routine (fun f => Parser.printStmt (Parser.expression f)) fun f => printStmt (expression f)
  | returnStmt :
      Routine (fun f => Parser.returnStmt (Parser.expression f)) fun f => returnStmt (expression f)
  | ifStmt :
      Routine (fun f => Parser.ifStmt (Parser.expression f) (Parser.statement f))
        fun f => ifStmt (expression f) (Situated.statement f)
  | whileStmt :
      Routine (fun f => Parser.whileStmt (Parser.expression f) (Parser.statement f))
        fun f => whileStmt (expression f) (Situated.statement f)
  | forStmt :
      Routine (fun f => Parser.forStmt (Parser.expression f) (Parser.statement f))
        fun f => forStmt (expression f) (Situated.statement f)
  | expression : Routine Parser.expression expression
  | assignment : Routine Parser.assignment assignment
  | logicalOr :
      Routine (fun f => Parser.logicalOr (Parser.unary f) f) fun f => logicalOr (unary f) f
  | orOperands (left : Expr) :
      Routine
        (fun f => Parser.chain (Parser.logicalAnd (Parser.unary f) f) (Parser.logicalOp? .or)
          Expr.logical f left)
        fun f => chain (Situated.logicalAnd (unary f) f) (Parser.logicalOp? .or) Expr.logical f left
  | logicalAnd :
      Routine (fun f => Parser.logicalAnd (Parser.unary f) f) fun f => logicalAnd (unary f) f
  | andOperands (left : Expr) :
      Routine
        (fun f => Parser.chain (Parser.operand (Parser.unary f) f BinaryOp.loosest)
          (Parser.logicalOp? .and) Expr.logical f left)
        fun f => chain (Situated.operand (unary f) f BinaryOp.loosest) (Parser.logicalOp? .and)
          Expr.logical f left
  | operand (level : Nat) :
      Routine (fun f => Parser.operand (Parser.unary f) f level) fun f => operand (unary f) f level
  | operands (level : Nat) (left : Expr) :
      Routine
        (fun f => Parser.chain (Parser.operand (Parser.unary f) f level)
          (BinaryOp.atLevel? (level + 1)) Expr.binary f left)
        fun f => chain (Situated.operand (unary f) f level) (BinaryOp.atLevel? (level + 1))
          Expr.binary f left
  | unary : Routine Parser.unary unary
  | call :
      Routine (fun f => Parser.call (Parser.expression f) f) fun f => call (Situated.expression f) f
  | suffixes (e : Expr) :
      Routine (fun f => Parser.suffixes (Parser.expression f) f e)
        fun f => suffixes (Situated.expression f) f e
  | arguments (found : List Expr) :
      Routine
        (fun f => Parser.commaList (Parser.expression f) Expr.span .tooManyArguments f found)
        fun f => commaList (Situated.expression f) Expr.span .tooManyArguments f found
  | primary :
      Routine (fun f => Parser.primary (Parser.expression f))
        fun f => primary (Situated.expression f)

/-- The answer that a routine gives with fuel in proportion to the lexemes left, and with any
more. -/
def Gives (t : Nat → Situated α) (under : List Construct) (c : Cursor) (y : Reply α) : Prop :=
  ∀ f, 3 * c.rest.length + 6 ≤ f → t f under c = y

/-- What a parse yields from a cursor on, as `Parse.Iterates` has it, but that the construct of an
error is the innermost one that was under way where the declaration was refused. -/
inductive Iterates : Cursor → List (Except SyntaxError Stmt) → Prop where
  | ended {c : Cursor} : endsAt c.rest 0 = true → Iterates c []
  | lexical {c : Cursor} {e : LexError} {rest : List Lexeme} {results} :
      c.rest = .error e :: rest → Iterates { c with rest, constructs := [.topLevel] } results →
      Iterates c (.error (.atTopLevel e) :: results)
  | statement {c c' : Cursor} {t : PlacedToken} {rest : List Lexeme} {s : Stmt} {results} :
      c.rest = .ok t :: rest → t.token ≠ .endOfInput →
      Gives declaration [] { c with constructs := [.topLevel] } (.ok s c') →
      Iterates c' results → Iterates c (.ok s :: results)
  | refused {c c' : Cursor} {t : PlacedToken} {rest : List Lexeme} {r : Refusal}
      {under : List Construct} {results} :
      c.rest = .ok t :: rest → t.token ≠ .endOfInput →
      Gives declaration [] { c with constructs := [.topLevel] } (.refused r under c') →
      Iterates { c' with
        rest := (recover c'.last c'.rest).rest, last := (recover c'.last c'.rest).last } results →
      Iterates c (.error ⟨r.problem, under.headD .topLevel, r.span⟩ ::
        ((recover c'.last c'.rest).errors.map fun e => .error (.atTopLevel e)) ++ results)

end Situated
end ClassScript
