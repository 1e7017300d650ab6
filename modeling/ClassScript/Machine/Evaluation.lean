/-
# Evaluation

`eval` evaluates an expression, `exec` runs a statement and `call` calls a value. They
take fuel, which bounds how deep they nest and how many rounds each loop makes: with
enough of it a run that ends gives its answer, and more of it changes nothing.

A `return` unwinds statement by statement (`Flow.returned`) up to the call that it
belongs to.
-/
import ClassScript.Machine.Operation
import ClassScript.Nesting

namespace ClassScript

/-- How a statement ends. -/
inductive Flow where
  | next
  | returned (value : Value)

namespace Run

/-- Evaluates expressions from left to right. -/
def each (eval : Expr → Run Value) : List Expr → Run (List Value)
  | [] => pure []
  | e :: es => do
    let v ← eval e
    let vs ← each eval es
    pure (v :: vs)

/-- Runs statements in order, up to one that returns. -/
def sequence (exec : Stmt → Run Flow) : List Stmt → Run Flow
  | [] => pure .next
  | s :: ss => do
    match ← exec s with
    | .next => sequence exec ss
    | .returned v => pure (.returned v)

/-- Runs `body` as long as `condition` gives a true value, at most the given number of rounds. -/
def rounds (condition : Run Value) (body : Run Flow) : Nat → Run Flow
  | 0 => exhausted
  | n + 1 => do
    let v ← condition
    if v.isTrue then
      match ← body with
      | .next => rounds condition body n
      | .returned v => pure (.returned v)
    else pure .next

/-- The names that a call binds: each parameter to its argument. -/
def parameters (c : Closure) (args : List Value) : NameTable Value :=
  NameTable.ofList ((c.decl.params.map Declared.name).zip args)

/-- Calls a closure: its body runs in a new frame that holds the parameters. A method that sets up
an object gives that object, whatever it returns. -/
def apply (exec : Stmt → Run Flow) (c : Closure) (args : List Value) : Run Value := do
  let frame ← newFrame c.env (parameters c args)
  let flow ← inFrame frame (sequence exec c.decl.body)
  if c.isInit then fun m =>
    match m.store.getAt c.env 0 thisName with
    | .ok v => .done v m
    | .error _ => .broken .initWithoutThis
  else
    match flow with
    | .returned v => pure v
    | .next => pure .nil

/-- Makes an object of a class. -/
def construct (exec : Stmt → Run Flow) (c : Class) (args : List Value) : Run Value := do
  let ident ← onStore Store.newObject
  let object := Value.object ident c
  match c.init? with
  | none => pure object
  | some init =>
    let bound ← onStore fun s => s.bind init object
    let _ ← apply exec bound args
    pure object

/-- Calls a value that can be called, with as many arguments as it takes. -/
def invoke (exec : Stmt → Run Flow) (callee : Value) (args : List Value) : Run Value :=
  match callee with
  | .native n => native n args
  | .function c => apply exec c args
  | .cls c => construct exec c args
  | v => fail (.notCallable v.kind)

/-- A function declared in a frame. -/
def closure (frame : Nat) (decl : FunctionDecl) (isInit : Bool) : Run Closure := do
  let ident ← newIdent
  pure ⟨ident, decl, frame, isInit⟩

/-- The methods of a class, declared in a frame. Of two methods of one name the later one wins. -/
def methods (frame : Nat) : List FunctionDecl → NameTable Closure → Run (NameTable Closure)
  | [], table => pure table
  | decl :: decls, table => do
    let c ← closure frame decl (decl.name == initName)
    methods frame decls (table.put decl.name c)

/-- Declares a class in the current frame. With a superclass, the methods are declared in a frame
that holds it as `super`. -/
def declareClass (name : String) (parent : Option Class) (decls : List FunctionDecl) :
    Run Unit := do
  let frame ← currentFrame
  let frame ← match parent with
    | none => pure frame
    | some c => newFrame frame (NameTable.empty.put superName (.cls c))
  let table ← methods frame decls .empty
  let ident ← newIdent
  let inherited := match parent with
    | none => []
    | some c => c.chain
  define name (.cls ⟨⟨ident, name, table⟩, inherited⟩)

/-! ### One level of a recursion

What evaluating an expression, calling a value and running a statement do, given how the same is
done for the parts. -/

/-- Evaluates an expression, given how expressions are evaluated and values are called. -/
@[inline] def exprStep (eval : Expr → Run Value) (call : Value → List Value → Run Value)
    (e : Expr) : Run Value :=
  located e.span (match e with
    | .literal _ v => pure v.value
    | .group _ e => eval e
    | .variable mark name => readName mark.id name
    | .assign mark name e => do
      let v ← eval e
      writeName mark.id name v
      pure v
    | .unary _ op e => do
      let v ← eval e
      ofExcept (op.apply v)
    | .binary _ op l r => do
      let x ← eval l
      let y ← eval r
      ofExcept (op.apply x y)
    | .logical _ op l r => do
      let v ← eval l
      if op.settledBy v then pure v else eval r
    | .call _ callee args => do
      let v ← eval callee
      let vs ← each eval args
      call v vs
    | .get _ e name => do
      let v ← eval e
      readProperty v name
    | .set _ e name value => do
      match ← eval e with
      | .object ident _ =>
        let v ← eval value
        writeProperty ident name v
        pure v
      | v => fail (.noProperties v.kind)
    | .this mark => readName mark.id thisName
    | .super mark method => readSuper mark.id method)

/-- Calls a value with arguments, given how statements are run. -/
@[inline] def callStep (exec : Stmt → Run Flow) (callee : Value) (args : List Value) : Run Value :=
  match callee.arity? with
  | none => fail (.notCallable callee.kind)
  | some arity =>
    if args.length ≠ arity then fail (.wrongArity callee.display arity args.length)
    else asCall (invoke exec callee args)

/-- The value of an expression, or `nil` where there is none. -/
@[inline] def optional (eval : Expr → Run Value) : Option Expr → Run Value
  | some e => eval e
  | none => pure .nil

/-- The class that a superclass is, if there is one. -/
@[inline] def superclass (eval : Expr → Run Value) : Option NameUse → Run (Option Class)
  | none => pure none
  | some u => do
    match ← eval u.expr with
    | .cls c => pure (some c)
    | v => located u.mark.span (fail (.notAClass v.kind))

/-- Runs a statement, given how expressions are evaluated and statements are run. A loop makes at
most `limit` rounds. -/
@[inline] def stmtStep (eval : Expr → Run Value) (exec : Stmt → Run Flow) (limit : Nat)
    (s : Stmt) : Run Flow :=
  located s.span (match s with
    | .expression _ e => do
      let _ ← eval e
      pure .next
    | .print _ e => do
      let v ← eval e
      printLine v.display
      pure .next
    | .var _ name init => do
      let v ← optional eval init
      define name v
      pure .next
    | .block _ body => do
      let outer ← currentFrame
      let frame ← newFrame outer
      inFrame frame (sequence exec body)
    | .branch _ c yes no => do
      let v ← eval c
      if v.isTrue then exec yes
      else match no with
        | some s => exec s
        | none => pure .next
    | .loop _ c body => rounds (eval c) (exec body) limit
    | .function _ decl => do
      let frame ← currentFrame
      let c ← closure frame decl false
      define decl.name (.function c)
      pure .next
    | .return _ value => do
      let v ← optional eval value
      pure (.returned v)
    | .classDecl _ name parent decls => do
      let parent ← superclass eval parent
      declareClass name.name parent decls
      pure .next)

end Run

open Run

mutual

/-- Evaluates an expression. -/
def eval : Nat → Expr → Run Value
  | 0, _ => exhausted
  | f + 1, e => fun m => staged f fun _ => exprStep (eval f) (call f) e m

/-- Calls a value with arguments. -/
def call : Nat → Value → List Value → Run Value
  | 0, _, _ => exhausted
  | f + 1, callee, args => fun m => staged f fun _ => callStep (exec f) callee args m

/-- Runs a statement. -/
def exec : Nat → Stmt → Run Flow
  | 0, _ => exhausted
  | f + 1, s => fun m => staged f fun _ => stmtStep (eval f) (exec f) f s m

end

/-- Runs the statements of a program. -/
def execAll (f : Nat) (program : List Stmt) : Run Flow := sequence (exec f) program

end ClassScript
