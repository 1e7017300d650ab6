/-
# Syntax trees

The trees of expressions and statements. Every expression carries a `Mark`: an
identity that no other expression of a session has, by which the analysis of
names refers to it, and the span of its text. Every statement carries its span.

There is no node for a `for` statement: `Stmt.forLoop` builds it out of blocks and
a `while` loop.
-/
import ClassScript.Syntax.Operator

namespace ClassScript

/-- The identity of an expression and the span of its text. -/
structure Mark where
  id : Nat
  span : Span
  deriving DecidableEq, Repr

/-- A constant. -/
inductive Literal where
  | nil
  | bool (b : Bool)
  | number (x : Float)
  | text (s : String)

inductive Expr where
  | literal (mark : Mark) (value : Literal)
  /-- An expression in parentheses. -/
  | group (mark : Mark) (inner : Expr)
  | variable (mark : Mark) (name : String)
  | assign (mark : Mark) (name : String) (value : Expr)
  | unary (mark : Mark) (op : UnaryOp) (operand : Expr)
  | binary (mark : Mark) (op : BinaryOp) (left right : Expr)
  | logical (mark : Mark) (op : LogicalOp) (left right : Expr)
  | call (mark : Mark) (callee : Expr) (args : List Expr)
  /-- The property `name` of an object. -/
  | get (mark : Mark) (object : Expr) (name : String)
  | set (mark : Mark) (object : Expr) (name : String) (value : Expr)
  | this (mark : Mark)
  /-- A method of the superclass. -/
  | super (mark : Mark) (method : String)

namespace Expr

def mark : Expr → Mark
  | .literal m _ | .group m _ | .variable m _ | .assign m _ _ | .unary m _ _ | .binary m _ _ _
  | .logical m _ _ _ | .call m _ _ | .get m _ _ | .set m _ _ _ | .this m | .super m _ => m

def span (e : Expr) : Span := e.mark.span

end Expr

/-- A name and where it is declared. -/
structure Declared where
  name : String
  span : Span
  deriving DecidableEq, Repr

/-- A name and the expression that it is on its own. -/
structure NameUse where
  mark : Mark
  name : String
  deriving DecidableEq, Repr

/-- The expression that a name is. -/
def NameUse.expr (u : NameUse) : Expr := .variable u.mark u.name

mutual

inductive Stmt where
  | expression (span : Span) (value : Expr)
  | print (span : Span) (value : Expr)
  | var (span : Span) (name : String) (init : Option Expr)
  | block (span : Span) (body : List Stmt)
  | branch (span : Span) (condition : Expr) (yes : Stmt) (no : Option Stmt)
  | loop (span : Span) (condition : Expr) (body : Stmt)
  | function (span : Span) (decl : FunctionDecl)
  | return (span : Span) (value : Option Expr)
  | classDecl (span : Span) (name : Declared) (superclass : Option NameUse)
      (methods : List FunctionDecl)

/-- The declaration of a function or a method. -/
inductive FunctionDecl where
  | mk (name : Declared) (params : List Declared) (body : List Stmt)

end

namespace FunctionDecl

def declared : FunctionDecl → Declared
  | .mk d _ _ => d

def name (f : FunctionDecl) : String := f.declared.name

def params : FunctionDecl → List Declared
  | .mk _ ps _ => ps

def body : FunctionDecl → List Stmt
  | .mk _ _ b => b

end FunctionDecl

namespace Stmt

def span : Stmt → Span
  | .expression s _ | .print s _ | .var s _ _ | .block s _ | .branch s _ _ _ | .loop s _ _
  | .function s _ | .return s _ | .classDecl s _ _ _ => s

/-- A `for` statement: the initializer runs once in a scope of its own, and each round of the loop
ends with the increment. -/
def forLoop (span : Span) (init : Option Stmt) (condition : Expr) (increment : Option Expr)
    (body : Stmt) : Stmt :=
  let body := match increment with
    | none => body
    | some e => .block body.span [body, .expression e.span e]
  let loop := .loop span condition body
  match init with
  | none => loop
  | some init => .block span [init, loop]

end Stmt
end ClassScript
