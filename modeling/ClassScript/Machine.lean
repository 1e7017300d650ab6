/-
# The machine

The state of a run and the steps that make it up. Besides the store a `Machine` holds
the frame that is current, the depths that the analysis found, the sink that output
goes to, how deep calls nest and how deep they may, and the answers that the clock will
give.

A `Run` is a step of the machine. It ends with a value or with a runtime error, both
together with the machine as it is then, or it meets a broken invariant, or it does not
end within the fuel it was given.
-/
import ClassScript.Value.Store

namespace ClassScript

/-- Where output goes. A sink may take only so many bytes. -/
structure Sink where
  written : ByteArray := .empty
  /-- The number of bytes it still takes, if there is a limit. -/
  room : Option Nat := none
  /-- Why it takes no more. -/
  reason : String := "sink closed"

namespace Sink

/-- Writes a text. A sink with too little room takes what it has room for and fails. -/
def write (s : Sink) (text : String) : Option String × Sink :=
  let bytes := text.toUTF8
  match s.room with
  | none => (none, { s with written := s.written ++ bytes })
  | some room =>
    if bytes.size ≤ room then
      (none, { s with written := s.written ++ bytes, room := some (room - bytes.size) })
    else
      (some s.reason, { s with written := s.written ++ bytes.extract 0 room, room := some 0 })

end Sink

/-- How deep calls may nest unless the host says otherwise. -/
def defaultMaxCalls : Nat := 100000

structure Machine where
  store : Store
  /-- The current frame. -/
  frame : Nat
  depths : Depths := {}
  sink : Sink := {}
  /-- How many calls are active. -/
  calls : Nat := 0
  maxCalls : Nat := defaultMaxCalls
  /-- What the clock answers, by how often it was asked before. -/
  clock : Nat → Float
  /-- How often the clock was asked. -/
  readings : Nat := 0

/-- The number of the frame that holds the global names. -/
def globalFrame : Nat := 0

namespace Store

/-- Nothing is around the global frame. -/
theorem chain_global (s : Store) : s.chain globalFrame = [globalFrame] := by
  rw [chain]
  cases s.parent? globalFrame with
  | none => rfl
  | some p => simp [globalFrame]

theorem get_global (s : Store) (x : String) : s.get globalFrame x = s.lookup globalFrame x := by
  rw [get, holder?, chain_global]
  cases h : s.lookup globalFrame x <;> simp [h]

theorem assign_global (s : Store) (x : String) (v : Value) :
    s.assign globalFrame x v =
      if (s.lookup globalFrame x).isSome then some (s.define globalFrame x v) else none := by
  rw [assign, holder?, chain_global]
  cases h : s.lookup globalFrame x <;> simp [h]

end Store

/-- How a run ends. -/
inductive Answer (α : Type) where
  | done (value : α) (machine : Machine)
  | failed (error : RuntimeError) (machine : Machine)
  | broken (breach : Breach)
  | exhausted

/-- A step of the machine. -/
def Run (α : Type) : Type := Machine → Answer α

namespace Answer

variable {α : Type}

/-- The answer with a change of the machine it ends in. -/
@[inline] def mapMachine (f : Machine → Machine) : Answer α → Answer α
  | .done a m => .done a (f m)
  | .failed e m => .failed e (f m)
  | .broken b => .broken b
  | .exhausted => .exhausted

end Answer

namespace Run

variable {α β : Type}

@[always_inline, inline] protected def pure (a : α) : Run α := fun m => .done a m

@[always_inline, inline] protected def bind (r : Run α) (f : α → Run β) : Run β := fun m =>
  match r m with
  | .done a m' => f a m'
  | .failed e m' => .failed e m'
  | .broken b => .broken b
  | .exhausted => .exhausted

instance : Monad Run where
  pure := Run.pure
  bind := Run.bind

/-- No answer: the fuel is spent. -/
def exhausted : Run α := fun _ => .exhausted

def fail (fault : Fault) : Run α := fun m => .failed ⟨fault, none⟩ m

def breach (b : Breach) : Run α := fun _ => .broken b

/-- Attributes an error of `r` that has no place yet to a span. -/
@[inline] def located (span : Span) (r : Run α) : Run α := fun m =>
  match r m with
  | .failed e m' => .failed (e.locate span) m'
  | a => a

/-- A change of the store that yields a value. -/
@[inline] def onStore (f : Store → α × Store) : Run α := fun m =>
  let (a, store) := f m.store
  .done a { m with store }

/-- Runs `r` with another current frame. -/
@[inline] def inFrame (frame : Nat) (r : Run α) : Run α := fun m =>
  let outer := m.frame
  (r { m with frame }).mapMachine fun m' => { m' with frame := outer }

/-- Runs `r` as a call, unless calls nest too deep already. -/
@[inline] def asCall (r : Run α) : Run α := fun m =>
  if m.maxCalls ≤ m.calls then .failed ⟨.tooDeep, none⟩ m
  else
    (r { m with calls := m.calls + 1 }).mapMachine fun m' => { m' with calls := m'.calls - 1 }

/-- A new frame inside a frame. -/
def newFrame (parent : Nat) (names : NameTable Value := {}) : Run Nat :=
  onStore fun s => s.newFrame (some parent) names

def currentFrame : Run Nat := fun m => .done m.frame m

def newIdent : Run Nat := onStore Store.newIdent

/-- Binds a name in the current frame. -/
def define (name : String) (value : Value) : Run Unit := fun m =>
  .done () { m with store := m.store.define m.frame name value }

/-- The value of the name that the expression `id` is. -/
def readName (id : Nat) (name : String) : Run Value := fun m =>
  match m.depths.find? id with
  | some depth =>
    match m.store.getAt m.frame depth name with
    | .ok v => .done v m
    | .error b => .broken b
  | none =>
    match m.store.get globalFrame name with
    | some v => .done v m
    | none => .failed ⟨.undefinedVariable name, none⟩ m

/-- Changes the value of the name that the expression `id` assigns to. -/
def writeName (id : Nat) (name : String) (value : Value) : Run Unit := fun m =>
  match m.depths.find? id with
  | some depth =>
    match m.store.assignAt m.frame depth name value with
    | .ok store => .done () { m with store }
    | .error b => .broken b
  | none =>
    match m.store.assign globalFrame name value with
    | some store => .done () { m with store }
    | none => .failed ⟨.undefinedVariable name, none⟩ m

/-- Writes a line of output. -/
def printLine (text : String) : Run Unit := fun m =>
  match m.sink.write (text ++ "\n") with
  | (none, sink) => .done () { m with sink }
  | (some reason, sink) => .failed ⟨.outputFailed reason, none⟩ { m with sink }

/-- Asks the clock. -/
def readClock : Run Float := fun m =>
  .done (m.clock m.readings) { m with readings := m.readings + 1 }

/-- A property of a value, which has to be an object. -/
def readProperty (object : Value) (name : String) : Run Value := fun m =>
  match object with
  | .object ident c =>
    match m.store.property ident c name with
    | some (v, store) => .done v { m with store }
    | none => .failed ⟨.undefinedProperty name, none⟩ m
  | v => .failed ⟨.noProperties v.kind, none⟩ m

/-- Sets a property of an object. -/
def writeProperty (ident : Nat) (name : String) (value : Value) : Run Unit := fun m =>
  .done () { m with store := m.store.setField ident name value }

/-- The method of the superclass that the expression `id` names, bound to `this`. The frame of
`this` lies just inside the frame of `super`. -/
def readSuper (id : Nat) (name : String) : Run Value := fun m =>
  match m.depths.find? id with
  | none => .broken .superUnresolved
  | some depth =>
    match m.store.getAt m.frame depth superName with
    | .error b => .broken b
    | .ok (.cls parent) =>
      match depth with
      | 0 => .broken .superInnermost
      | inner + 1 =>
        match m.store.getAt m.frame inner thisName with
        | .error b => .broken b
        | .ok (.object ident c) =>
          match parent.method? name with
          | none => .failed ⟨.undefinedProperty name, none⟩ m
          | some method =>
            let (bound, store) := m.store.bind method (.object ident c)
            .done (.function bound) { m with store }
        | .ok _ => .broken .thisNotAnObject
    | .ok _ => .broken .superNotAClass

end Run

namespace Machine

/-- A machine at rest, with the functions of the language as its only global names. -/
def initial (clock : Nat → Float) : Machine :=
  let natives := NameTable.ofList (Native.all.map fun n => (n.name, Value.native n))
  { store := (({} : Store).newFrame none natives).2, frame := globalFrame, clock }

/-- The value of a global name. -/
def global? (m : Machine) (name : String) : Option Value := m.store.get globalFrame name

/-- Binds a global name. -/
def defineGlobal (m : Machine) (name : String) (value : Value) : Machine :=
  { m with store := m.store.define globalFrame name value }

end Machine
end ClassScript
