/-
# Lexical scoping

What a program of the language means when names are resolved by plain lexical scoping,
without an analysis, depths and frames. An environment maps the local names in sight to
cells and never changes. Each time a local declaration is executed or a parameter is
bound, the name gets a cell of its own, before the initializer is evaluated. A closure
keeps the environment of its declaration; the environment of a method holds a cell for
`this` and, in a class with a superclass, one for `super`. A name that the environment
does not hold is looked up in the table of global names.

A run is `stuck` where a name has a cell without a value, or where `this` or `super` is not
what it should be. That programs which pass the analysis are never stuck is part of what
is to be shown.
-/
import ClassScript.Session

namespace ClassScript
namespace Lexical

/-- The cells of the local names in sight. -/
abbrev Env := NameTable Nat

/-- All that a run can change. -/
structure State where
  /-- A cell has no value until the initializer of its name is evaluated. -/
  cells : Array (Option (Value Env)) := #[]
  globals : NameTable (Value Env) := {}
  /-- The fields of each object. -/
  objects : Array (NameTable (Value Env)) := #[]
  /-- The number of identities given out to functions and classes. -/
  idents : Nat := 0
  sink : Sink := {}
  calls : Nat := 0
  maxCalls : Nat := defaultMaxCalls
  clock : Nat → Float
  readings : Nat := 0

/-- How a run ends. -/
inductive Answer (α : Type) where
  | done (value : α) (state : State)
  | failed (error : RuntimeError) (state : State)
  | stuck
  | exhausted

def Run (α : Type) : Type := State → Answer α

namespace Run

variable {α β : Type}

protected def pure (a : α) : Run α := fun σ => .done a σ

protected def bind (r : Run α) (f : α → Run β) : Run β := fun σ =>
  match r σ with
  | .done a σ' => f a σ'
  | .failed e σ' => .failed e σ'
  | .stuck => .stuck
  | .exhausted => .exhausted

instance : Monad Run where
  pure := Run.pure
  bind := Run.bind

def exhausted : Run α := fun _ => .exhausted

def stuck : Run α := fun _ => .stuck

def fail (fault : Fault) : Run α := fun σ => .failed ⟨fault, none⟩ σ

/-- Attributes an error of `r` that has no place yet to a span. -/
def located (span : Span) (r : Run α) : Run α := fun σ =>
  match r σ with
  | .failed e σ' => .failed (e.locate span) σ'
  | a => a

/-- Runs `r` as a call, unless calls nest too deep already. -/
def asCall (r : Run α) : Run α := fun σ =>
  if σ.maxCalls ≤ σ.calls then .failed ⟨.tooDeep, none⟩ σ
  else
    match r { σ with calls := σ.calls + 1 } with
    | .done a σ' => .done a { σ' with calls := σ'.calls - 1 }
    | .failed e σ' => .failed e { σ' with calls := σ'.calls - 1 }
    | a => a

def ofExcept : Except Fault α → Run α
  | .ok a => pure a
  | .error fault => fail fault

/-! ### Cells, names and identities -/

/-- A new cell. -/
def newCell (v : Option (Value Env)) : Run Nat := fun σ =>
  .done σ.cells.size { σ with cells := σ.cells.push v }

/-- The environment with a new cell for each of the names, which holds its value. -/
def bindAll (ρ : Env) : List (String × Value Env) → Run Env
  | [] => pure ρ
  | (x, v) :: entries => do
    let cell ← newCell (some v)
    bindAll (ρ.put x cell) entries

/-- The value of a local name. -/
def readLocal (ρ : Env) (x : String) : Run (Value Env) := fun σ =>
  match (ρ.find? x).bind fun cell => σ.cells[cell]?.join with
  | some v => .done v σ
  | none => .stuck

def readGlobal (x : String) : Run (Value Env) := fun σ =>
  match σ.globals.find? x with
  | some v => .done v σ
  | none => .failed ⟨.undefinedVariable x, none⟩ σ

def readName (ρ : Env) (x : String) : Run (Value Env) :=
  if ρ.contains x then readLocal ρ x else readGlobal x

/-- Changes the value of a name. -/
def writeName (ρ : Env) (x : String) (v : Value Env) : Run Unit := fun σ =>
  match ρ.find? x with
  | some cell => .done () { σ with cells := σ.cells.setIfInBounds cell (some v) }
  | none =>
    if σ.globals.contains x then .done () { σ with globals := σ.globals.put x v }
    else .failed ⟨.undefinedVariable x, none⟩ σ

/-- A new cell for a local name that is declared. A global name has none. -/
def declare (inner : Bool) : Run (Option Nat) := do
  if inner then
    let cell ← newCell none
    pure (some cell)
  else pure none

/-- The environment behind a declaration. -/
def extended (ρ : Env) (x : String) : Option Nat → Env
  | some cell => ρ.put x cell
  | none => ρ

/-- Gives a declared name its value. -/
def settle (x : String) (cell : Option Nat) (v : Value Env) : Run Unit := fun σ =>
  match cell with
  | some cell => .done () { σ with cells := σ.cells.setIfInBounds cell (some v) }
  | none => .done () { σ with globals := σ.globals.put x v }

def newIdent : Run Nat := fun σ => .done σ.idents { σ with idents := σ.idents + 1 }

def newObject : Run Nat := fun σ =>
  .done σ.objects.size { σ with objects := σ.objects.push {} }

/-! ### Output, clock and properties -/

def printLine (text : String) : Run Unit := fun σ =>
  match σ.sink.write (text ++ "\n") with
  | (none, sink) => .done () { σ with sink }
  | (some reason, sink) => .failed ⟨.outputFailed reason, none⟩ { σ with sink }

def readClock : Run Float := fun σ =>
  .done (σ.clock σ.readings) { σ with readings := σ.readings + 1 }

def field? (σ : State) (object : Nat) (x : String) : Option (Value Env) :=
  match σ.objects[object]? with
  | some fields => fields.find? x
  | none => none

/-- A method bound to an object: its environment gets a cell for `this`. -/
def bindThis (method : Closure Env) (object : Value Env) : Run (Closure Env) := do
  let env ← bindAll method.env [(thisName, object)]
  let ident ← newIdent
  pure { method with ident, env }

/-- A property of a value, which has to be an object: a field, or a method bound to it. -/
def readProperty (object : Value Env) (x : String) : Run (Value Env) := fun σ =>
  match object with
  | .object ident c =>
    match field? σ ident x with
    | some v => .done v σ
    | none =>
      match c.method? x with
      | some method => (bindThis method object >>= fun c => pure (.function c)) σ
      | none => .failed ⟨.undefinedProperty x, none⟩ σ
  | v => .failed ⟨.noProperties v.kind, none⟩ σ

def writeProperty (object : Nat) (x : String) (v : Value Env) : Run Unit := fun σ =>
  .done () { σ with objects := σ.objects.modify object fun fields => fields.put x v }

/-- A method of the superclass in sight, bound to the object in sight. -/
def readSuper (ρ : Env) (x : String) : Run (Value Env) := do
  match ← readLocal ρ superName with
  | .cls parent =>
    match ← readLocal ρ thisName with
    | .object ident c =>
      match parent.method? x with
      | some method =>
        let bound ← bindThis method (.object ident c)
        pure (.function bound)
      | none => fail (.undefinedProperty x)
    | _ => stuck
  | _ => stuck

/-- Calls a function of the language. -/
def native (n : Native) (args : List (Value Env)) : Run (Value Env) :=
  match n, args with
  | .clock, _ => do
    let x ← readClock
    pure (.number x)
  | .str, v :: _ => pure (.text v.display)
  | .type, v :: _ => pure (.text v.kind.name)
  | .num, v :: _ => ofExcept v.toNumber
  | _, [] => stuck

end Run

/-- How a statement ends: with the environment of the next one, or by a `return`. -/
inductive Flow where
  | next (env : Env)
  | returned (value : Value Env)

/-- The names that a statement declares are not in sight outside of it. -/
def Flow.outside (ρ : Env) : Flow → Flow
  | .next _ => .next ρ
  | .returned v => .returned v

namespace Run

/-- Evaluates expressions from left to right. -/
def each (eval : Expr → Run (Value Env)) : List Expr → Run (List (Value Env))
  | [] => pure []
  | e :: es => do
    let v ← eval e
    let vs ← each eval es
    pure (v :: vs)

/-- Runs statements in order, each in the environment behind the one before it. -/
def sequence (exec : Env → Stmt → Run Flow) (ρ : Env) : List Stmt → Run Flow
  | [] => pure (.next ρ)
  | s :: ss => do
    match ← exec ρ s with
    | .next ρ' => sequence exec ρ' ss
    | .returned v => pure (.returned v)

/-- Runs `body` as long as `condition` gives a true value, at most the given number of rounds. -/
def rounds (ρ : Env) (condition : Run (Value Env)) (body : Run Flow) : Nat → Run Flow
  | 0 => exhausted
  | n + 1 => do
    let v ← condition
    if v.isTrue then
      match ← body with
      | .next _ => rounds ρ condition body n
      | .returned v => pure (.returned v)
    else pure (.next ρ)

/-- Calls a closure: its body runs in the environment of the closure and the parameters. -/
def apply (exec : Env → Stmt → Run Flow) (c : Closure Env) (args : List (Value Env)) :
    Run (Value Env) := do
  let ρ ← bindAll c.env ((c.decl.params.map Declared.name).zip args)
  let flow ← sequence exec ρ c.decl.body
  if c.isInit then readLocal c.env thisName
  else
    match flow with
    | .returned v => pure v
    | .next _ => pure .nil

/-- Makes an object of a class. -/
def construct (exec : Env → Stmt → Run Flow) (c : Class Env) (args : List (Value Env)) :
    Run (Value Env) := do
  let ident ← newObject
  match c.init? with
  | none => pure (.object ident c)
  | some init =>
    let bound ← bindThis init (.object ident c)
    let _ ← apply exec bound args
    pure (.object ident c)

/-- Calls a value that can be called, with as many arguments as it takes. -/
def invoke (exec : Env → Stmt → Run Flow) (callee : Value Env) (args : List (Value Env)) :
    Run (Value Env) :=
  match callee with
  | .native n => native n args
  | .function c => apply exec c args
  | .cls c => construct exec c args
  | v => fail (.notCallable v.kind)

/-- The methods of a class. Of two methods of one name the later one wins. -/
def methods (ρ : Env) : List FunctionDecl → NameTable (Closure Env) → Run (NameTable (Closure Env))
  | [], table => pure table
  | decl :: decls, table => do
    let ident ← newIdent
    methods ρ decls (table.put decl.name ⟨ident, decl, ρ, decl.name == initName⟩)

/-- Gives a declared class its value. With a superclass, its methods see that as `super`. -/
def settleClass (ρ : Env) (name : String) (cell : Option Nat) (parent : Option (Class Env))
    (decls : List FunctionDecl) : Run Unit := do
  let ρ ← match parent with
    | none => pure ρ
    | some c => bindAll ρ [(superName, .cls c)]
  let table ← methods ρ decls .empty
  let ident ← newIdent
  let inherited := match parent with
    | none => []
    | some c => c.chain
  settle name cell (.cls ⟨⟨ident, name, table⟩, inherited⟩)

/-! ### One level of a recursion -/

/-- Evaluates an expression, given how expressions are evaluated and values are called. -/
def exprStep (eval : Expr → Run (Value Env)) (call : Value Env → List (Value Env) → Run (Value Env))
    (ρ : Env) (e : Expr) : Run (Value Env) :=
  located e.span (match e with
    | .literal _ v => pure v.value
    | .group _ e => eval e
    | .variable _ x => readName ρ x
    | .assign _ x e => do
      let v ← eval e
      writeName ρ x v
      pure v
    | .unary _ op e => do
      let v ← eval e
      ofExcept (op.apply v)
    | .binary _ op l r => do
      let x ← eval l
      let y ← eval r
      ofExcept (op.apply x y)
    | .logical _ op l r => do
      let v ← eval l
      if op.settledBy v then pure v else eval r
    | .call _ callee args => do
      let v ← eval callee
      let vs ← each eval args
      call v vs
    | .get _ e x => do
      let v ← eval e
      readProperty v x
    | .set _ e x value => do
      match ← eval e with
      | .object ident _ =>
        let v ← eval value
        writeProperty ident x v
        pure v
      | v => fail (.noProperties v.kind)
    | .this _ => readLocal ρ thisName
    | .super _ x => readSuper ρ x)

/-- Calls a value with arguments, given how statements are run. -/
def callStep (exec : Env → Stmt → Run Flow) (callee : Value Env) (args : List (Value Env)) :
    Run (Value Env) :=
  match callee.arity? with
  | none => fail (.notCallable callee.kind)
  | some arity =>
    if args.length ≠ arity then fail (.wrongArity callee.display arity args.length)
    else asCall (invoke exec callee args)

/-- The value of an expression, or `nil` where there is none. -/
def optional (eval : Expr → Run (Value Env)) : Option Expr → Run (Value Env)
  | some e => eval e
  | none => pure .nil

/-- The class that a superclass is, if there is one. -/
def superclass (eval : Expr → Run (Value Env)) : Option NameUse → Run (Option (Class Env))
  | none => pure none
  | some u => do
    match ← eval u.expr with
    | .cls c => pure (some c)
    | v => located u.mark.span (fail (.notAClass v.kind))

/-- Runs a statement, given how expressions are evaluated and statements are run. `inner` says
whether the statement stands in a block or a function. -/
def stmtStep (eval : Env → Expr → Run (Value Env)) (exec : Bool → Env → Stmt → Run Flow)
    (limit : Nat) (inner : Bool) (ρ : Env) (s : Stmt) : Run Flow :=
  located s.span (match s with
    | .expression _ e => do
      let _ ← eval ρ e
      pure (.next ρ)
    | .print _ e => do
      let v ← eval ρ e
      printLine v.display
      pure (.next ρ)
    | .var _ x init => do
      let cell ← declare inner
      let v ← optional (eval (extended ρ x cell)) init
      settle x cell v
      pure (.next (extended ρ x cell))
    | .block _ body => do
      let flow ← sequence (exec true) ρ body
      pure (flow.outside ρ)
    | .branch _ c yes no => do
      let v ← eval ρ c
      let flow ← if v.isTrue then exec inner ρ yes
        else match no with
          | some s => exec inner ρ s
          | none => pure (.next ρ)
      pure (flow.outside ρ)
    | .loop _ c body => rounds ρ (eval ρ c) (exec inner ρ body) limit
    | .function _ decl => do
      let cell ← declare inner
      let ident ← newIdent
      settle decl.name cell (.function ⟨ident, decl, extended ρ decl.name cell, false⟩)
      pure (.next (extended ρ decl.name cell))
    | .return _ value => do
      let v ← optional (eval ρ) value
      pure (.returned v)
    | .classDecl _ name parent decls => do
      let cell ← declare inner
      let parent ← superclass (eval (extended ρ name.name cell)) parent
      settleClass (extended ρ name.name cell) name.name cell parent decls
      pure (.next (extended ρ name.name cell)))

end Run

open ClassScript.Lexical.Run

mutual

/-- Evaluates an expression. -/
def eval : Nat → Env → Expr → Run (Value Env)
  | 0, _, _ => exhausted
  | f + 1, ρ, e => exprStep (eval f ρ) (call f) ρ e

/-- Calls a value with arguments. -/
def call : Nat → Value Env → List (Value Env) → Run (Value Env)
  | 0, _, _ => exhausted
  | f + 1, callee, args => callStep (exec f true) callee args

/-- Runs a statement. -/
def exec : Nat → Bool → Env → Stmt → Run Flow
  | 0, _, _, _ => exhausted
  | f + 1, inner, ρ, s => stmtStep (eval f) (exec f) f inner ρ s

end

/-- The state in which nothing has run yet. -/
def State.initial (clock : Nat → Float) : State :=
  { globals := NameTable.ofList (Native.all.map fun n => (n.name, Value.native n)), clock }

/-- Runs a program. After an error, what it did before stays done. -/
def execute (f : Nat) (body : List Stmt) (σ : State) : Answer Unit :=
  match sequence (exec f false) .empty body σ with
  | .done _ σ' => .done () { σ' with calls := 0 }
  | .failed e σ' => .failed e { σ' with calls := 0 }
  | .stuck => .stuck
  | .exhausted => .exhausted

/-! ### Sessions -/

structure Session where
  state : State
  /-- The next identity for an expression. -/
  nextId : Nat := 0

namespace Session

/-- What an answer means for a session. There is no outcome where a run is stuck. -/
def conclude (s : Session) : Answer Unit → Option (Outcome Unit) × Session
  | .done a state => (some (.ok a), { s with state })
  | .failed e state => (some (.failed e), { s with state })
  | .stuck => (none, s)
  | .exhausted => (some .exhausted, s)

/-- Builds a text and runs it. What the analysis found but for faults is not used. -/
def run (f : Nat) (s : Session) (text : CharStream) : Option (Outcome Unit) × Session :=
  let parse := text.parse s.nextId
  let s := { s with nextId := parse.nextId }
  match Program.ofParse parse with
  | .ok p => s.conclude (execute f p.body s.state)
  | .error e => (some (.unbuilt e), s)

/-- The session behind texts that were run one after the other, each with its fuel. -/
def behind (s : Session) (history : List (Nat × CharStream)) : Session :=
  history.foldl (fun s step => (s.run step.1 step.2).2) s

end Session

end Lexical
end ClassScript
