/-
# Evaluations under way

Evaluation once more, this time with the list of the expressions and statements that are under way,
the innermost first. A fault is recorded with this list where it is raised, and nothing is added to
it or taken from it on the way out: spans are not looked at. The machine does the same.

Every rule here is the rule of the same name in `Run`, with its own steps as they are there
(`Attributed.own`).

Key definitions: `Activation`, `Activation.Raises`, `Attributed`, `Machine.attributedExecute`.
-/
import ClassScript.Session

namespace ClassScript

/-- An expression that is being evaluated or a statement that is being run. -/
inductive Activation where
  | eval (e : Expr)
  | exec (s : Stmt)

/-- The faults that functions of the language raise. -/
inductive Fault.OfNative : Fault → Prop
  | notANumber (text : String) (cause : Decimal.NumeralFault) : OfNative (.notANumber text cause)
  | notNumeric (kind : Kind) : OfNative (.notNumeric kind)

/-- The faults that a call raises itself, or the function of the language that it calls. -/
inductive Fault.OfCall : Fault → Prop
  | notCallable (kind : Kind) : OfCall (.notCallable kind)
  | wrongArity (callee : String) (arity given : Nat) : OfCall (.wrongArity callee arity given)
  | tooDeep : OfCall .tooDeep
  | native {fault : Fault} : fault.OfNative → OfCall fault

namespace Activation

/-- Where a fault belongs that an activation raises itself. A class declaration raises none but one
about its superclass. -/
def place : Activation → Span
  | .eval e => e.span
  | .exec (.classDecl _ _ (some u) _) => u.mark.span
  | .exec s => s.span

/-- The faults that an activation raises itself, those of its parts left aside. -/
inductive Raises : Activation → Fault → Prop
  | variable (mark : Mark) (name : String) :
      Raises (.eval (.variable mark name)) (.undefinedVariable name)
  | assign (mark : Mark) (name : String) (e : Expr) :
      Raises (.eval (.assign mark name e)) (.undefinedVariable name)
  | this (mark : Mark) : Raises (.eval (.this mark)) (.undefinedVariable thisName)
  | unary (mark : Mark) (op : UnaryOp) (e : Expr) (kind : Kind) :
      Raises (.eval (.unary mark op e)) (.unaryOperand op kind)
  | binary (mark : Mark) (op : BinaryOp) (l r : Expr) (left right : Kind) :
      Raises (.eval (.binary mark op l r)) (.binaryOperands op left right)
  | call (mark : Mark) (callee : Expr) (args : List Expr) {fault : Fault} :
      fault.OfCall → Raises (.eval (.call mark callee args)) fault
  | getOf (mark : Mark) (e : Expr) (name : String) (kind : Kind) :
      Raises (.eval (.get mark e name)) (.noProperties kind)
  | get (mark : Mark) (e : Expr) (name : String) :
      Raises (.eval (.get mark e name)) (.undefinedProperty name)
  | set (mark : Mark) (e : Expr) (name : String) (value : Expr) (kind : Kind) :
      Raises (.eval (.set mark e name value)) (.noProperties kind)
  | super (mark : Mark) (method : String) :
      Raises (.eval (.super mark method)) (.undefinedProperty method)
  | print (span : Span) (e : Expr) (reason : String) :
      Raises (.exec (.print span e)) (.outputFailed reason)
  | classDecl (span : Span) (name : Declared) (u : NameUse) (methods : List FunctionDecl)
      (kind : Kind) : Raises (.exec (.classDecl span name (some u) methods)) (.notAClass kind)

end Activation

/-- A fault and the activations at the moment it was raised, the innermost first. -/
structure Raised where
  fault : Fault
  active : List Activation

/-- The fault with the place of the innermost activation. -/
def Raised.error (w : Raised) : RuntimeError := ⟨w.fault, w.active.head?.map Activation.place⟩

/-- How a run ends, where faults are raised with the activations. -/
inductive Verdict (α : Type) where
  | done (value : α) (machine : Machine)
  | failed (raised : Raised) (machine : Machine)
  | broken (breach : Breach)
  | exhausted

namespace Verdict

variable {α : Type}

def mapMachine (f : Machine → Machine) : Verdict α → Verdict α
  | .done a m => .done a (f m)
  | .failed w m => .failed w (f m)
  | .broken b => .broken b
  | .exhausted => .exhausted

/-- The answer in which a fault is attributed to the innermost activation. -/
def answer : Verdict α → Answer α
  | .done a m => .done a m
  | .failed w m => .failed w.error m
  | .broken b => .broken b
  | .exhausted => .exhausted

end Verdict

/-- A step of the machine that knows which activations are under way. -/
def Attributed (α : Type) : Type := List Activation → Machine → Verdict α

namespace Attributed

variable {α β : Type}

protected def pure (a : α) : Attributed α := fun _ m => .done a m

protected def bind (t : Attributed α) (f : α → Attributed β) : Attributed β := fun active m =>
  match t active m with
  | .done a m' => f a active m'
  | .failed w m' => .failed w m'
  | .broken b => .broken b
  | .exhausted => .exhausted

instance : Monad Attributed where
  pure := Attributed.pure
  bind := Attributed.bind

/-- A step of the innermost activation itself: what it raises is raised now. -/
def own (r : Run α) : Attributed α := fun active m =>
  match r m with
  | .done a m' => .done a m'
  | .failed e m' => .failed ⟨e.fault, active⟩ m'
  | .broken b => .broken b
  | .exhausted => .exhausted

/-- Runs `t` inside of one more activation. -/
def inside (n : Activation) (t : Attributed α) : Attributed α := fun active => t (n :: active)

def inFrame (frame : Nat) (t : Attributed α) : Attributed α := fun active m =>
  let outer := m.frame
  (t active { m with frame }).mapMachine fun m' => { m' with frame := outer }

def asCall (t : Attributed α) : Attributed α := fun active m =>
  if m.maxCalls ≤ m.calls then .failed ⟨.tooDeep, active⟩ m
  else
    (t active { m with calls := m.calls + 1 }).mapMachine fun m' => { m' with calls := m'.calls - 1 }

def each (eval : Expr → Attributed Value) : List Expr → Attributed (List Value)
  | [] => pure []
  | e :: es => do
    let v ← eval e
    let vs ← each eval es
    pure (v :: vs)

def sequence (exec : Stmt → Attributed Flow) : List Stmt → Attributed Flow
  | [] => pure .next
  | s :: ss => do
    match ← exec s with
    | .next => sequence exec ss
    | .returned v => pure (.returned v)

def rounds (condition : Attributed Value) (body : Attributed Flow) : Nat → Attributed Flow
  | 0 => own Run.exhausted
  | n + 1 => do
    let v ← condition
    if v.isTrue then
      match ← body with
      | .next => rounds condition body n
      | .returned v => pure (.returned v)
    else pure .next

def apply (exec : Stmt → Attributed Flow) (c : Closure) (args : List Value) : Attributed Value := do
  let frame ← own (Run.newFrame c.env (Run.parameters c args))
  let flow ← inFrame frame (sequence exec c.decl.body)
  if c.isInit then own fun m =>
    match m.store.getAt c.env 0 thisName with
    | .ok v => .done v m
    | .error _ => .broken .initWithoutThis
  else
    match flow with
    | .returned v => pure v
    | .next => pure .nil

def construct (exec : Stmt → Attributed Flow) (c : Class) (args : List Value) :
    Attributed Value := do
  let ident ← own (Run.onStore Store.newObject)
  let object := Value.object ident c
  match c.init? with
  | none => pure object
  | some init =>
    let bound ← own (Run.onStore fun s => s.bind init object)
    let _ ← apply exec bound args
    pure object

def invoke (exec : Stmt → Attributed Flow) (callee : Value) (args : List Value) :
    Attributed Value :=
  match callee with
  | .native n => own (Run.native n args)
  | .function c => apply exec c args
  | .cls c => construct exec c args
  | v => own (Run.fail (.notCallable v.kind))

def callStep (exec : Stmt → Attributed Flow) (callee : Value) (args : List Value) :
    Attributed Value :=
  match callee.arity? with
  | none => own (Run.fail (.notCallable callee.kind))
  | some arity =>
    if args.length ≠ arity then own (Run.fail (.wrongArity callee.display arity args.length))
    else asCall (invoke exec callee args)

def exprStep (eval : Expr → Attributed Value) (call : Value → List Value → Attributed Value)
    (e : Expr) : Attributed Value :=
  inside (.eval e) (match e with
    | .literal _ v => pure v.value
    | .group _ e => eval e
    | .variable mark name => own (Run.readName mark.id name)
    | .assign mark name e => do
      let v ← eval e
      own (Run.writeName mark.id name v)
      pure v
    | .unary _ op e => do
      let v ← eval e
      own (Run.ofExcept (op.apply v))
    | .binary _ op l r => do
      let x ← eval l
      let y ← eval r
      own (Run.ofExcept (op.apply x y))
    | .logical _ op l r => do
      let v ← eval l
      if op.settledBy v then pure v else eval r
    | .call _ callee args => do
      let v ← eval callee
      let vs ← each eval args
      call v vs
    | .get _ e name => do
      let v ← eval e
      own (Run.readProperty v name)
    | .set _ e name value => do
      match ← eval e with
      | .object ident _ =>
        let v ← eval value
        own (Run.writeProperty ident name v)
        pure v
      | v => own (Run.fail (.noProperties v.kind))
    | .this mark => own (Run.readName mark.id thisName)
    | .super mark method => own (Run.readSuper mark.id method))

def optional (eval : Expr → Attributed Value) : Option Expr → Attributed Value
  | some e => eval e
  | none => pure .nil

def superclass (eval : Expr → Attributed Value) : Option NameUse → Attributed (Option Class)
  | none => pure none
  | some u => do
    match ← eval u.expr with
    | .cls c => pure (some c)
    | v => own (Run.fail (.notAClass v.kind))

def stmtStep (eval : Expr → Attributed Value) (exec : Stmt → Attributed Flow) (limit : Nat)
    (s : Stmt) : Attributed Flow :=
  inside (.exec s) (match s with
    | .expression _ e => do
      let _ ← eval e
      pure .next
    | .print _ e => do
      let v ← eval e
      own (Run.printLine v.display)
      pure .next
    | .var _ name init => do
      let v ← optional eval init
      own (Run.define name v)
      pure .next
    | .block _ body => do
      let outer ← own Run.currentFrame
      let frame ← own (Run.newFrame outer)
      inFrame frame (sequence exec body)
    | .branch _ c yes no => do
      let v ← eval c
      if v.isTrue then exec yes
      else match no with
        | some s => exec s
        | none => pure .next
    | .loop _ c body => rounds (eval c) (exec body) limit
    | .function _ decl => do
      let frame ← own Run.currentFrame
      let c ← own (Run.closure frame decl false)
      own (Run.define decl.name (.function c))
      pure .next
    | .return _ value => do
      let v ← optional eval value
      pure (.returned v)
    | .classDecl _ name parent decls => do
      let parent ← superclass eval parent
      own (Run.declareClass name.name parent decls)
      pure .next)

end Attributed

open Attributed

mutual

def attributedEval : Nat → Expr → Attributed Value
  | 0, _ => own Run.exhausted
  | f + 1, e => Attributed.exprStep (attributedEval f) (attributedCall f) e

def attributedCall : Nat → Value → List Value → Attributed Value
  | 0, _, _ => own Run.exhausted
  | f + 1, callee, args => Attributed.callStep (attributedExec f) callee args

def attributedExec : Nat → Stmt → Attributed Flow
  | 0, _ => own Run.exhausted
  | f + 1, s => Attributed.stmtStep (attributedEval f) (attributedExec f) f s

end

/-- Runs a program, with no activation around it. -/
def Machine.attributedExecute (f : Nat) (p : Program) (m : Machine) : Verdict Unit :=
  match Attributed.sequence (attributedExec f) p.body [] { m with depths := m.depths.merge p.depths } with
  | .done _ m' => .done () m'.atRest
  | .failed w m' => .failed w m'.atRest
  | .broken b => .broken b
  | .exhausted => .exhausted

end ClassScript
