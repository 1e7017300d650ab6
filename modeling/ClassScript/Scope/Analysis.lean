/-
# The analysis of scopes

Before a program runs, every reference to a local name is matched with the scope that
declares it, and the number of scopes between the two is recorded by the identity of
the reference. Global names are not tracked: a name that no local scope holds is left
for the run to look up. The analysis reports all faults of a program (`analyze`) and
never stops at the first.

The scopes match the frames that a run makes: a block, a call with its parameters,
the `this` of a bound method and the `super` of a class with a superclass are one
scope each.
-/
import ClassScript.NameTable
import ClassScript.Scope.Depths
import ClassScript.Scope.Fault
import ClassScript.Syntax.Tree

namespace ClassScript

/-- The name that a method's own object is bound to. -/
def thisName : String := "this"

/-- The name that the superclass of a class is bound to. -/
def superName : String := "super"

/-- The name of the method that sets up a new object. -/
def initName : String := "init"

namespace Scope

/-- Whether a local name may be read yet. -/
inductive Readiness where
  /-- The name is declared, and its initializer is being analysed. -/
  | declared
  | defined
  deriving DecidableEq, Repr

/-- The innermost function around a statement. -/
inductive FunctionKind where
  | none | function | method | initializer
  deriving DecidableEq, Repr

/-- The innermost class around a statement. -/
inductive ClassKind where
  | none | base | derived
  deriving DecidableEq, Repr

/-- The state of an analysis: the local scopes, innermost first, the depths found and the errors,
the last one first. -/
structure Analysis where
  scopes : List (NameTable Readiness) := []
  depths : Depths := {}
  errors : List ScopeError := []

namespace Analysis

def report (a : Analysis) (problem : ScopeProblem) (span : Span) : Analysis :=
  { a with errors := ⟨problem, span⟩ :: a.errors }

/-- Reports a problem if there is one. -/
def reportIf (a : Analysis) (found : Bool) (problem : ScopeProblem) (span : Span) : Analysis :=
  if found then a.report problem span else a

/-- Opens a local scope. -/
def push (a : Analysis) : Analysis := { a with scopes := .empty :: a.scopes }

/-- Closes the innermost local scope. -/
def pop (a : Analysis) : Analysis := { a with scopes := a.scopes.tail }

/-- How ready a name of the innermost local scope is. -/
def innermost? (a : Analysis) (name : String) : Option Readiness :=
  match a.scopes with
  | [] => none
  | scope :: _ => scope.find? name

/-- Puts a name into the innermost scope, if there is a local one. -/
def put (a : Analysis) (name : String) (r : Readiness) : Analysis :=
  match a.scopes with
  | [] => a
  | scope :: rest => { a with scopes := scope.put name r :: rest }

/-- Declares a name in the innermost scope, which must not hold it yet. -/
def declare (a : Analysis) (name : String) (span : Span) : Analysis :=
  (a.reportIf (a.innermost? name).isSome (.duplicate name) span).put name .declared

/-- Makes a name of the innermost scope ready to be read. -/
def define (a : Analysis) (name : String) : Analysis := a.put name .defined

/-- Declares and defines a name. -/
def introduce (a : Analysis) (d : Declared) : Analysis := (a.declare d.name d.span).define d.name

/-- The number of scopes between the innermost one and the nearest that holds a name. -/
def depth? (a : Analysis) (name : String) : Option Nat := a.scopes.findIdx? (·.contains name)

/-- Records the depth of a reference, unless it is to a global name. -/
def refer (a : Analysis) (id : Nat) (name : String) : Analysis :=
  match a.depth? name with
  | some depth => { a with depths := a.depths.record id depth }
  | none => a

/-- The fault of a `super`, if it has one. -/
def superFault? : ClassKind → Option ScopeProblem
  | .none => some .superOutsideClass
  | .base => some .superWithoutSuperclass
  | .derived => none

mutual

/-- Analyses an expression inside a class of kind `k`. -/
def expr (k : ClassKind) (a : Analysis) : Expr → Analysis
  | .literal _ _ => a
  | .group _ e => expr k a e
  | .variable m name =>
    (a.reportIf (a.innermost? name == some .declared) (.readInOwnInitializer name) m.span).refer
      m.id name
  | .assign m name e => (expr k a e).refer m.id name
  | .unary _ _ e => expr k a e
  | .binary _ _ l r => expr k (expr k a l) r
  | .logical _ _ l r => expr k (expr k a l) r
  | .call _ callee args => exprs k (expr k a callee) args
  | .get _ e _ => expr k a e
  | .set _ e _ v => expr k (expr k a v) e
  | .this m =>
    if k = .none then a.report .thisOutsideClass m.span else a.refer m.id thisName
  | .super m _ =>
    let a := match superFault? k with
      | some problem => a.report problem m.span
      | none => a
    a.refer m.id superName

/-- Analyses expressions from left to right. -/
def exprs (k : ClassKind) (a : Analysis) : List Expr → Analysis
  | [] => a
  | e :: es => exprs k (expr k a e) es

end

/-- Analyses an expression that may be missing. -/
def optionalExpr (k : ClassKind) (a : Analysis) : Option Expr → Analysis
  | none => a
  | some e => expr k a e

/-- The kind of a method. -/
def methodKind (name : String) : FunctionKind :=
  if name = initName then .initializer else .method

mutual

/-- Analyses a statement inside a function of kind `f` and a class of kind `k`. -/
def stmt (f : FunctionKind) (k : ClassKind) (a : Analysis) : Stmt → Analysis
  | .expression _ e => expr k a e
  | .print _ e => expr k a e
  | .var s name init => (optionalExpr k (a.declare name s) init).define name
  | .block _ body => (stmts f k a.push body).pop
  | .branch _ c yes no => optionalStmt f k (stmt f k (expr k a c) yes) no
  | .loop _ c body => stmt f k (expr k a c) body
  | .function _ (.mk d params body) => function .function k (a.introduce d) (.mk d params body)
  | .return s value =>
    let a := a.reportIf (f == .none) .returnAtTopLevel s
    let a := a.reportIf (f == .initializer && value.isSome) .returnValueFromInit s
    optionalExpr k a value
  | .classDecl _ name none methods =>
    (methodDecls .base ((a.introduce name).push.define thisName) methods).pop
  | .classDecl _ name (some parent) methods =>
    let a := a.introduce name
    let a := a.reportIf (parent.name == name.name) .selfInheritance parent.mark.span
    let a := (expr .derived a parent.expr).push.define superName
    (methodDecls .derived (a.push.define thisName) methods).pop.pop

/-- Analyses statements in order. -/
def stmts (f : FunctionKind) (k : ClassKind) (a : Analysis) : List Stmt → Analysis
  | [] => a
  | s :: ss => stmts f k (stmt f k a s) ss

/-- Analyses a statement that may be missing. -/
def optionalStmt (f : FunctionKind) (k : ClassKind) (a : Analysis) : Option Stmt → Analysis
  | none => a
  | some s => stmt f k a s

/-- Analyses the parameters and the body of a function, which share a scope. -/
def function (f : FunctionKind) (k : ClassKind) (a : Analysis) : FunctionDecl → Analysis
  | .mk _ params body => (stmts f k (params.foldl introduce a.push) body).pop

/-- Analyses the methods of a class of kind `k` in order. -/
def methodDecls (k : ClassKind) (a : Analysis) : List FunctionDecl → Analysis
  | [] => a
  | .mk d params body :: ms =>
    methodDecls k (function (methodKind d.name) k a (.mk d params body)) ms

end

end Analysis

/-- The depths of all references of a program, or all its errors. -/
def analyze (program : List Stmt) : Except (List ScopeError) Depths :=
  let a := Analysis.stmts .none .none {} program
  if a.errors.isEmpty then .ok a.depths else .error a.errors.reverse

end Scope
end ClassScript
