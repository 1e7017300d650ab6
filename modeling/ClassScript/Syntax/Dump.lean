/-
# Dumps of trees

The dump of a tree shows every part of every node by name, one part to a line. It is
made of nested records, cases and lists (`Dump`), which are written with four blanks
for each level and a comma behind each part.
-/
import ClassScript.Syntax.Tree

namespace ClassScript

/-- A text laid out in nested parts. -/
inductive Dump where
  | atom (text : String)
  /-- Parts in brackets. -/
  | list (parts : List Dump)
  /-- A name and parts in parentheses. -/
  | case (name : String) (parts : List Dump)
  /-- A name and named parts in braces. -/
  | record (name : String) (parts : List (String × Dump))

namespace Dump

/-- The blanks in front of a line. -/
def indent (level : Nat) : String := String.ofList (List.replicate (4 * level) ' ')

mutual

/-- Writes a dump behind `out`, inside of `level` others. -/
def write (level : Nat) (out : String) : Dump → String
  | .atom s => out ++ s
  | .list [] => out ++ "[]"
  | .list (p :: ps) => writeParts (level + 1) (out ++ "[\n") (p :: ps) ++ indent level ++ "]"
  | .case name parts => writeParts (level + 1) (out ++ name ++ "(\n") parts ++ indent level ++ ")"
  | .record name parts =>
    writeNamed (level + 1) (out ++ name ++ " \x7b\n") parts ++ indent level ++ "\x7d"

/-- Writes the parts of a list or a case, one to a line. -/
def writeParts (level : Nat) (out : String) : List Dump → String
  | [] => out
  | p :: ps => writeParts level (write level (out ++ indent level) p ++ ",\n") ps

/-- Writes the parts of a record, one to a line. -/
def writeNamed (level : Nat) (out : String) : List (String × Dump) → String
  | [] => out
  | (name, p) :: ps =>
    writeNamed level (write level (out ++ indent level ++ name ++ ": ") p ++ ",\n") ps

end

/-- A case with one part. -/
def one (name : String) (part : Dump) : Dump := .case name [part]

/-- A part that may be missing. -/
def option : Option Dump → Dump
  | none => .atom "None"
  | some p => one "Some" p

end Dump

open Dump

def Span.dump (s : Span) : Dump :=
  .record "DebugSymbol" [("start", .atom (toString s.start)), ("end", .atom (toString s.stop))]

/-- A name, marked as one. -/
def dumpName (name : String) : Dump := .atom ("$" ++ name)

def Literal.dump : Literal → Dump
  | .nil => .atom "Nil"
  | .bool b => one "Bool" (.atom (if b then "true" else "false"))
  | .number x => one "Number" (.atom (Decimal.Layout.exact.writeFloat x))
  | .text s => one "String" (.atom (Text.quote s))

def UnaryOp.dump : UnaryOp → Dump
  | .negate => .atom "Neg"
  | .not => .atom "Not"

def BinaryOp.dump : BinaryOp → Dump
  | .mul => .atom "Mul"
  | .div => .atom "Div"
  | .add => .atom "Add"
  | .sub => .atom "Sub"
  | .less => .atom "LT"
  | .greater => .atom "GT"
  | .lessEqual => .atom "LE"
  | .greaterEqual => .atom "GE"
  | .equal => .atom "EQ"
  | .notEqual => .atom "NE"

def LogicalOp.dump : LogicalOp → Dump
  | .and => .atom "And"
  | .or => .atom "Or"

/-- An expression around what is its own. -/
def Mark.dump (m : Mark) (variant : Dump) : Dump :=
  .record "ExprMeta" [("id", one "ExprId" (.atom (toString m.id))), ("variant", variant),
    ("symbol", m.span.dump)]

mutual

def Expr.dump : Expr → Dump
  | .literal m v => m.dump (one "Literal" v.dump)
  | .group m e => m.dump (one "Group" e.dump)
  | .variable m x => m.dump (one "Variable" (dumpName x))
  | .assign m x e => m.dump (.record "Assign" [("name", dumpName x), ("value", e.dump)])
  | .unary m op e => m.dump (.record "Unary" [("op", op.dump), ("operand", e.dump)])
  | .binary m op l r =>
    m.dump (.record "Binary" [("op", op.dump), ("lhs", l.dump), ("rhs", r.dump)])
  | .logical m op l r =>
    m.dump (.record "Logical" [("op", op.dump), ("lhs", l.dump), ("rhs", r.dump)])
  | .call m callee args =>
    m.dump (.record "Call" [("callee", callee.dump), ("args", .list (Expr.dumpAll args))])
  | .get m e x => m.dump (.record "Get" [("object", e.dump), ("name", dumpName x)])
  | .set m e x v =>
    m.dump (.record "Set" [("object", e.dump), ("name", dumpName x), ("value", v.dump)])
  | .this m => m.dump (.atom "This")
  | .super m x => m.dump (.record "Super" [("method", dumpName x)])

def Expr.dumpAll : List Expr → List Dump
  | [] => []
  | e :: es => e.dump :: Expr.dumpAll es

end

def Declared.dumpParam (d : Declared) : Dump :=
  .record "Param" [("name", dumpName d.name), ("symbol", d.span.dump)]

/-- A statement around what is its own. -/
def Stmt.dumpAs (span : Span) (variant : Dump) : Dump :=
  .record "StmtMeta" [("variant", variant), ("symbol", span.dump)]

mutual

def Stmt.dump : Stmt → Dump
  | .expression s e => Stmt.dumpAs s (one "Expression" e.dump)
  | .print s e => Stmt.dumpAs s (one "Print" e.dump)
  | .var s x init =>
    Stmt.dumpAs s (.record "Var" [("name", dumpName x), ("init", option (init.map Expr.dump))])
  | .block s body => Stmt.dumpAs s (one "Block" (.list (Stmt.dumpAll body)))
  | .branch s c yes no =>
    Stmt.dumpAs s (.record "If" [("condition", c.dump), ("then_branch", yes.dump),
      ("else_branch", option (Stmt.dumpOption no))])
  | .loop s c body => Stmt.dumpAs s (.record "While" [("condition", c.dump), ("body", body.dump)])
  | .function s f => Stmt.dumpAs s (one "Function" f.dump)
  | .return s value => Stmt.dumpAs s (one "Return" (option (value.map Expr.dump)))
  | .classDecl s name parent methods =>
    Stmt.dumpAs s (one "Class" (.record "ClassDecl" [("name", dumpName name.name),
      ("superclass", option (parent.map fun u => u.expr.dump)),
      ("methods", .list (FunctionDecl.dumpAll methods)), ("symbol", name.span.dump)]))

def Stmt.dumpAll : List Stmt → List Dump
  | [] => []
  | s :: ss => s.dump :: Stmt.dumpAll ss

def Stmt.dumpOption : Option Stmt → Option Dump
  | none => none
  | some s => some s.dump

def FunctionDecl.dump : FunctionDecl → Dump
  | .mk d params body =>
    .record "FunctionDecl" [("name", dumpName d.name),
      ("params", .list (params.map Declared.dumpParam)), ("body", .list (Stmt.dumpAll body)),
      ("symbol", d.span.dump)]

def FunctionDecl.dumpAll : List FunctionDecl → List Dump
  | [] => []
  | f :: fs => f.dump :: FunctionDecl.dumpAll fs

end

/-- The dump of a program. -/
def dumpProgram (program : List Stmt) : String := (Dump.list (Stmt.dumpAll program)).write 0 ""

end ClassScript
