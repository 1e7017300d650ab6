/-
# Outlines of trees

The outline of a tree shows its shape, its spans and the identities of its
expressions in nested parentheses, on one line. An outline is written behind a
text that is already there, so that writing a tree takes time in its size.
-/
import ClassScript.Syntax.Tree

namespace ClassScript

/-- A span as it stands behind a tag: `start-stop`. -/
def Span.outline (s : Span) : String := toString s.start ++ "-" ++ toString s.stop

/-- The beginning of a statement's outline. -/
def Span.opening (s : Span) (tag : String) : String := "(" ++ tag ++ "@" ++ s.outline

/-- The beginning of an expression's outline. -/
def Mark.opening (m : Mark) (tag : String) : String :=
  "(" ++ tag ++ "#" ++ toString m.id ++ "@" ++ m.span.outline

def Literal.outline : Literal → String
  | .nil => "nil"
  | .bool b => if b then "true" else "false"
  | .number x => Decimal.Layout.plain.writeFloat x
  | .text s => Text.literal s

def Declared.outline (d : Declared) : String := d.name ++ "@" ++ d.span.outline

mutual

/-- Writes an expression behind `out`. -/
def Expr.outline (out : String) : Expr → String
  | .literal m v => out ++ m.opening "lit" ++ " " ++ v.outline ++ ")"
  | .group m e => (e.outline (out ++ m.opening "group" ++ " ")) ++ ")"
  | .variable m x => out ++ m.opening "name" ++ " " ++ x ++ ")"
  | .assign m x e => (e.outline (out ++ m.opening "assign" ++ " " ++ x ++ " ")) ++ ")"
  | .unary m op e => (e.outline (out ++ m.opening "unary" ++ " " ++ op.symbol.text ++ " ")) ++ ")"
  | .binary m op l r =>
    let out := out ++ m.opening "binary" ++ " " ++ op.symbol.text ++ " "
    r.outline (l.outline out ++ " ") ++ ")"
  | .logical m op l r =>
    let out := out ++ m.opening "logical" ++ " " ++ op.symbol.text ++ " "
    r.outline (l.outline out ++ " ") ++ ")"
  | .call m callee args =>
    Expr.outlineAll ((callee.outline (out ++ m.opening "call" ++ " "))) args ++ ")"
  | .get m e x => (e.outline (out ++ m.opening "get" ++ " ")) ++ " " ++ x ++ ")"
  | .set m e x v =>
    (v.outline ((e.outline (out ++ m.opening "set" ++ " ")) ++ " " ++ x ++ " ")) ++ ")"
  | .this m => out ++ m.opening "this" ++ ")"
  | .super m x => out ++ m.opening "super" ++ " " ++ x ++ ")"

/-- Writes expressions behind `out`, each after a space. -/
def Expr.outlineAll (out : String) : List Expr → String
  | [] => out
  | e :: es => Expr.outlineAll (e.outline (out ++ " ")) es

end

/-- Writes an expression that may be missing behind `out`, after a space. -/
def Expr.outlineOption (out : String) : Option Expr → String
  | none => out
  | some e => e.outline (out ++ " ")

mutual

/-- Writes a statement behind `out`. -/
def Stmt.outline (out : String) : Stmt → String
  | .expression s e => (e.outline (out ++ s.opening "expr" ++ " ")) ++ ")"
  | .print s e => (e.outline (out ++ s.opening "print" ++ " ")) ++ ")"
  | .var s x init => Expr.outlineOption (out ++ s.opening "var" ++ " " ++ x) init ++ ")"
  | .block s body => Stmt.outlineAll (out ++ s.opening "block") body ++ ")"
  | .branch s c yes no =>
    Stmt.outlineOption (yes.outline ((c.outline (out ++ s.opening "if" ++ " ")) ++ " ")) no ++ ")"
  | .loop s c body => (body.outline ((c.outline (out ++ s.opening "while" ++ " ")) ++ " ")) ++ ")"
  | .function s f => (f.outline (out ++ s.opening "fun" ++ " ")) ++ ")"
  | .return s v => Expr.outlineOption (out ++ s.opening "return") v ++ ")"
  | .classDecl s name parent methods =>
    let out := out ++ s.opening "class" ++ " " ++ name.outline
    let out := match parent with
      | none => out
      | some u => u.expr.outline (out ++ " < ")
    FunctionDecl.outlineAll out methods ++ ")"

/-- Writes statements behind `out`, each after a space. -/
def Stmt.outlineAll (out : String) : List Stmt → String
  | [] => out
  | s :: ss => Stmt.outlineAll (s.outline (out ++ " ")) ss

/-- Writes a statement that may be missing behind `out`, after a space. -/
def Stmt.outlineOption (out : String) : Option Stmt → String
  | none => out
  | some s => s.outline (out ++ " ")

/-- Writes a function behind `out`. -/
def FunctionDecl.outline (out : String) : FunctionDecl → String
  | .mk d params body =>
    let head := d.span.opening "function" ++ " " ++ d.name ++ " " ++
      "(" ++ " ".intercalate ("params" :: params.map Declared.outline) ++ ")"
    Stmt.outlineAll (out ++ head) body ++ ")"

/-- Writes functions behind `out`, each after a space. -/
def FunctionDecl.outlineAll (out : String) : List FunctionDecl → String
  | [] => out
  | f :: fs => FunctionDecl.outlineAll (f.outline (out ++ " ")) fs

end

end ClassScript
