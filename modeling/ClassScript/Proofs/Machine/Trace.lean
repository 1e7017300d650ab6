/-
# Traces

A traced run answers as the run itself does and lists what happened on the way, each event
with the moment at which it happened: a node was visited, a value was called, a text was
printed, a method was bound to an object, a class got a superclass. A run that fails, or
that does not end within its fuel, has the events up to there.

A moment is what programs can see of a machine. It holds neither the sink nor the limit to
calls, so that runs under different limits can be compared event by event. How many calls
are active is counted here once more, by how the calls are nested: `tracedEval`,
`tracedCall` and `tracedExec` are told how deep they are, and do not look at the machine.
They are told, too, which function the code belongs to that is running.

Key definitions: `Event`, `Traced`, `tracedAll`, `Machine.events`.
-/
import ClassScript.Session
import ClassScript.Proofs.Scope.Visit

namespace ClassScript

open Scope

/-- The machine that a run ended in, if it did. -/
def Answer.machine? {α : Type} : Answer α → Option Machine
  | .done _ m => some m
  | .failed _ m => some m
  | .broken _ => none
  | .exhausted => none

/-- The fault that a run ended with, if it did. -/
def Answer.fault? {α : Type} : Answer α → Option Fault
  | .failed e _ => some e.fault
  | _ => none

/-- What programs can see of a machine. -/
structure Moment where
  frame : Nat
  store : Store
  depths : Depths
  /-- How often the clock was asked. -/
  readings : Nat

def Machine.moment (m : Machine) : Moment := ⟨m.frame, m.store, m.depths, m.readings⟩

inductive Happening where
  /-- An expression is about to be evaluated, or a statement to be run, in the body of the function
  `within` or outside of all functions. -/
  | visits (within : Option Closure) (n : Node)
  /-- A value is called, and with this call so many are active. -/
  | calls (active : Nat) (callee : Value) (args : List Value)
  /-- The print statement at `span` is about to write a text. -/
  | prints (span : Span) (text : String)
  /-- A method was bound to an object, in a new frame that holds `this`. -/
  | binds (frame : Nat)
  /-- A class with these methods was declared with a superclass, and a new frame holds `super`. -/
  | derives (frame : Nat) (parent : Class) (methods : List FunctionDecl)

structure Event where
  moment : Moment
  happening : Happening

/-- The text that was printed. -/
def Event.printed (e : Event) : ByteArray :=
  match e.happening with
  | .prints _ text => text.toUTF8
  | _ => .empty

/-- All that was printed. -/
def printed : List Event → ByteArray
  | [] => .empty
  | e :: es => e.printed ++ printed es

@[simp] theorem printed_append (es es' : List Event) :
    printed (es ++ es') = printed es ++ printed es' := by
  induction es with
  | nil => exact ByteArray.empty_append.symm
  | cons e es ih => rw [List.cons_append, printed, printed, ih, ByteArray.append_assoc]

theorem printed_eq_empty {es : List Event} (h : ∀ e ∈ es, e.printed = .empty) :
    printed es = .empty := by
  induction es with
  | nil => rfl
  | cons e es ih =>
    rw [printed, h e (.head _), ih fun e he => h e (.tail _ he)]
    exact ByteArray.empty_append

/-- What is looked for in a step that does nothing but change the store. -/
inductive View where
  | nothing
  /-- A method that is bound: there is a frame more then. -/
  | method
  /-- The frame that holds the superclass of a class with these methods. -/
  | superclass (parent : Class) (methods : List FunctionDecl)

/-- What is seen from the moment before a step and the moment behind it. -/
def View.see : View → Moment → Moment → List Event
  | .nothing, _, _ => []
  | .method, before, after =>
    if before.store.frames.size < after.store.frames.size then
      [⟨after, .binds before.store.frames.size⟩]
    else []
  | .superclass parent methods, before, after =>
    [⟨after, .derives before.store.frames.size parent methods⟩]

/-- All that is looked for are frames that hold `this` or `super`. -/
theorem View.mem_see {view : View} {before after : Moment} {e : Event}
    (h : e ∈ view.see before after) :
    (∃ frame, e.happening = .binds frame) ∨
      ∃ frame parent methods, e.happening = .derives frame parent methods := by
  cases view with
  | nothing => cases h
  | superclass parent methods =>
    obtain rfl := List.mem_singleton.mp h
    exact .inr ⟨_, parent, methods, rfl⟩
  | method =>
    simp only [View.see] at h
    by_cases hsize : before.store.frames.size < after.store.frames.size
    · rw [if_pos hsize] at h
      obtain rfl := List.mem_singleton.mp h
      exact .inl ⟨_, rfl⟩
    · rw [if_neg hsize] at h
      cases h

/-- A run with its events. -/
def Traced (α : Type) : Type := Machine → List Event × Answer α

namespace Traced

variable {α β : Type}

/-- The run without its events. -/
def run (t : Traced α) : Run α := fun m => (t m).2

protected def pure (a : α) : Traced α := fun m => ([], .done a m)

protected def bind (t : Traced α) (f : α → Traced β) : Traced β := fun m =>
  match t m with
  | (es, .done a m') => (es ++ (f a m').1, (f a m').2)
  | (es, .failed e m') => (es, .failed e m')
  | (es, .broken b) => (es, .broken b)
  | (es, .exhausted) => (es, .exhausted)

instance : Monad Traced where
  pure := Traced.pure
  bind := Traced.bind

/-- A step of the machine that is looked at. -/
def seen (view : View) (r : Run α) : Traced α := fun m =>
  (match r m with
    | .done _ m' => view.see m.moment m'.moment
    | _ => [], r m)

/-- A step without events. -/
def quiet (r : Run α) : Traced α := seen .nothing r

def visit (within : Option Closure) (n : Node) (t : Traced α) : Traced α := fun m =>
  (⟨m.moment, .visits within n⟩ :: (t m).1, (t m).2)

def printLine (span : Span) (text : String) : Traced Unit := fun m =>
  ([⟨m.moment, .prints span (text ++ "\n")⟩], Run.printLine text m)

def located (span : Span) (t : Traced α) : Traced α := fun m =>
  ((t m).1, t.run.located span m)

def inFrame (frame : Nat) (t : Traced α) : Traced α := fun m =>
  ((t { m with frame }).1, t.run.inFrame frame m)

/-- A call, while `active` other ones are. -/
def asCall (active : Nat) (callee : Value) (args : List Value) (t : Traced α) : Traced α := fun m =>
  (if m.maxCalls ≤ m.calls then []
    else ⟨m.moment, .calls (active + 1) callee args⟩ :: (t { m with calls := m.calls + 1 }).1,
    t.run.asCall m)

/-! ### What traced runs are made of

Each of these is made like the run of the same name. -/

def each (eval : Expr → Traced Value) : List Expr → Traced (List Value)
  | [] => pure []
  | e :: es => do
    let v ← eval e
    let vs ← each eval es
    pure (v :: vs)

def sequence (exec : Stmt → Traced Flow) : List Stmt → Traced Flow
  | [] => pure .next
  | s :: ss => do
    match ← exec s with
    | .next => sequence exec ss
    | .returned v => pure (.returned v)

def rounds (condition : Traced Value) (body : Traced Flow) : Nat → Traced Flow
  | 0 => quiet Run.exhausted
  | n + 1 => do
    let v ← condition
    if v.isTrue then
      match ← body with
      | .next => rounds condition body n
      | .returned v => pure (.returned v)
    else pure .next

def apply (exec : Closure → Stmt → Traced Flow) (c : Closure) (args : List Value) :
    Traced Value := do
  let frame ← quiet (Run.newFrame c.env (Run.parameters c args))
  let flow ← inFrame frame (sequence (exec c) c.decl.body)
  if c.isInit then quiet fun m =>
    match m.store.getAt c.env 0 thisName with
    | .ok v => .done v m
    | .error _ => .broken .initWithoutThis
  else
    match flow with
    | .returned v => pure v
    | .next => pure .nil

def construct (exec : Closure → Stmt → Traced Flow) (c : Class) (args : List Value) :
    Traced Value := do
  let ident ← quiet (Run.onStore Store.newObject)
  let object := Value.object ident c
  match c.init? with
  | none => pure object
  | some init =>
    let bound ← seen .method (Run.onStore fun s => s.bind init object)
    let _ ← apply exec bound args
    pure object

def invoke (exec : Closure → Stmt → Traced Flow) (callee : Value) (args : List Value) :
    Traced Value :=
  match callee with
  | .native n => quiet (Run.native n args)
  | .function c => apply exec c args
  | .cls c => construct exec c args
  | v => quiet (Run.fail (.notCallable v.kind))

def declareClass (name : String) (parent : Option Class) (decls : List FunctionDecl) :
    Traced Unit := do
  let frame ← quiet Run.currentFrame
  let frame ← match parent with
    | none => pure frame
    | some c =>
      seen (.superclass c decls) (Run.newFrame frame (NameTable.empty.put superName (.cls c)))
  let table ← quiet (Run.methods frame decls .empty)
  let ident ← quiet Run.newIdent
  let inherited := match parent with
    | none => []
    | some c => c.chain
  quiet (Run.define name (.cls ⟨⟨ident, name, table⟩, inherited⟩))

def exprStep (eval : Expr → Traced Value) (call : Value → List Value → Traced Value) (e : Expr) :
    Traced Value :=
  located e.span (match e with
    | .literal _ v => pure v.value
    | .group _ e => eval e
    | .variable mark name => quiet (Run.readName mark.id name)
    | .assign mark name e => do
      let v ← eval e
      quiet (Run.writeName mark.id name v)
      pure v
    | .unary _ op e => do
      let v ← eval e
      quiet (Run.ofExcept (op.apply v))
    | .binary _ op l r => do
      let x ← eval l
      let y ← eval r
      quiet (Run.ofExcept (op.apply x y))
    | .logical _ op l r => do
      let v ← eval l
      if op.settledBy v then pure v else eval r
    | .call _ callee args => do
      let v ← eval callee
      let vs ← each eval args
      call v vs
    | .get _ e name => do
      let v ← eval e
      seen .method (Run.readProperty v name)
    | .set _ e name value => do
      match ← eval e with
      | .object ident _ =>
        let v ← eval value
        quiet (Run.writeProperty ident name v)
        pure v
      | v => quiet (Run.fail (.noProperties v.kind))
    | .this mark => quiet (Run.readName mark.id thisName)
    | .super mark method => seen .method (Run.readSuper mark.id method))

def callStep (exec : Closure → Stmt → Traced Flow) (active : Nat) (callee : Value)
    (args : List Value) : Traced Value :=
  match callee.arity? with
  | none => quiet (Run.fail (.notCallable callee.kind))
  | some arity =>
    if args.length ≠ arity then quiet (Run.fail (.wrongArity callee.display arity args.length))
    else asCall active callee args (invoke exec callee args)

def optional (eval : Expr → Traced Value) : Option Expr → Traced Value
  | some e => eval e
  | none => pure .nil

def superclass (eval : Expr → Traced Value) : Option NameUse → Traced (Option Class)
  | none => pure none
  | some u => do
    match ← eval u.expr with
    | .cls c => pure (some c)
    | v => located u.mark.span (quiet (Run.fail (.notAClass v.kind)))

/-- What the print statement at `span` does, given how its value is found. -/
def printing (span : Span) (t : Traced Value) : Traced Flow := do
  let v ← t
  printLine span v.display
  pure .next

def stmtStep (eval : Expr → Traced Value) (exec : Stmt → Traced Flow) (limit : Nat) (s : Stmt) :
    Traced Flow :=
  located s.span (match s with
    | .expression _ e => do
      let _ ← eval e
      pure .next
    | .print span e => printing span (eval e)
    | .var _ name init => do
      let v ← optional eval init
      quiet (Run.define name v)
      pure .next
    | .block _ body => do
      let outer ← quiet Run.currentFrame
      let frame ← quiet (Run.newFrame outer)
      inFrame frame (sequence exec body)
    | .branch _ c yes no => do
      let v ← eval c
      if v.isTrue then exec yes
      else match no with
        | some s => exec s
        | none => pure .next
    | .loop _ c body => rounds (eval c) (exec body) limit
    | .function _ decl => do
      let frame ← quiet Run.currentFrame
      let c ← quiet (Run.closure frame decl false)
      quiet (Run.define decl.name (.function c))
      pure .next
    | .return _ value => do
      let v ← optional eval value
      pure (.returned v)
    | .classDecl _ name parent decls => do
      let parent ← superclass eval parent
      declareClass name.name parent decls
      pure .next)

end Traced

open Traced

mutual

/-- Evaluates an expression of the function `within` while `active` calls are active. -/
def tracedEval : (f active : Nat) → (within : Option Closure) → Expr → Traced Value
  | 0, _, _, _ => quiet Run.exhausted
  | f + 1, active, within, e =>
    visit within (.expr e) (Traced.exprStep (tracedEval f active within) (tracedCall f active) e)

/-- Calls a value while `active` calls are active. -/
def tracedCall : (f active : Nat) → Value → List Value → Traced Value
  | 0, _, _, _ => quiet Run.exhausted
  | f + 1, active, callee, args =>
    Traced.callStep (fun c => tracedExec f (active + 1) (some c)) active callee args

/-- Runs a statement of the function `within` while `active` calls are active. -/
def tracedExec : (f active : Nat) → (within : Option Closure) → Stmt → Traced Flow
  | 0, _, _, _ => quiet Run.exhausted
  | f + 1, active, within, s =>
    visit within (.stmt s)
      (Traced.stmtStep (tracedEval f active within) (tracedExec f active within) f s)

end

/-- Runs the statements of a program. -/
def tracedAll (f : Nat) (program : List Stmt) : Traced Flow :=
  Traced.sequence (tracedExec f 0 none) program

/-- The events of running a program. -/
def Machine.events (f : Nat) (p : Program) (m : Machine) : List Event :=
  (tracedAll f p.body { m with depths := m.depths.merge p.depths }).1

end ClassScript
