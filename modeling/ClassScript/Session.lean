/-
# Sessions

A session runs one program text after another on one machine. Texts are built before
they run: parsed and analysed, and only a text without an error of either kind is run.
Identities of expressions go on from text to text, also from one that could not be
built, so the depths found for one text are never taken for those of another.
-/
import ClassScript.Machine.Evaluation
import ClassScript.Syntax.Program

namespace ClassScript

/-- Why a text cannot be run. -/
inductive BuildError where
  | parsing (errors : List SyntaxError)
  | scoping (errors : List ScopeError)

/-- A program that has passed the analysis. -/
structure Program where
  body : List Stmt
  depths : Depths

/-- Analyses a parsed program. -/
def Program.ofTrees (body : List Stmt) : Except BuildError Program :=
  match Scope.analyze body with
  | .ok depths => .ok ⟨body, depths⟩
  | .error errors => .error (.scoping errors)

/-- Parses and analyses a text. -/
def Program.ofParse (p : Parse) : Except BuildError Program :=
  match p.program with
  | .ok body => Program.ofTrees body
  | .error errors => .error (.parsing errors)

namespace Machine

/-- The machine between two runs: no call is active and the current frame is the global one. -/
def atRest (m : Machine) : Machine := { m with frame := globalFrame, calls := 0 }

/-- Runs a program. After an error, what it did before stays done. -/
def execute (f : Nat) (p : Program) (m : Machine) : Answer Unit :=
  match execAll f p.body { m with depths := m.depths.merge p.depths } with
  | .done _ m' => .done () m'.atRest
  | .failed e m' => .failed e m'.atRest
  | .broken b => .broken b
  | .exhausted => .exhausted

end Machine

/-- Fuel that no program spends in the time there is. -/
def ampleFuel : Nat := 0x1000000000000000

structure Session where
  machine : Machine
  /-- The next identity for an expression. -/
  nextId : Nat := 0

/-- How a step of a session ends. -/
inductive Outcome (α : Type) where
  | ok (value : α)
  | unbuilt (error : BuildError)
  | failed (error : RuntimeError)
  | broken (breach : Breach)
  | exhausted

namespace Session

/-- A session in which nothing has run yet. -/
def initial (clock : Nat → Float) : Session := { machine := .initial clock }

/-- What an answer of the machine means for a session. -/
def conclude {α : Type} (s : Session) : Answer α → Outcome α × Session
  | .done a machine => (.ok a, { s with machine })
  | .failed e machine => (.failed e, { s with machine })
  | .broken b => (.broken b, s)
  | .exhausted => (.exhausted, s)

/-- Runs a program that has been built. -/
def execute (f : Nat) (s : Session) (p : Program) : Outcome Unit × Session :=
  s.conclude (s.machine.execute f p)

/-- Builds a text and runs it. -/
def run (f : Nat) (s : Session) (text : CharStream) : Outcome Unit × Session :=
  let parse := text.parse s.nextId
  let s := { s with nextId := parse.nextId }
  match Program.ofParse parse with
  | .ok p => s.execute f p
  | .error e => (.unbuilt e, s)

/-- Calls the value of a global name from outside of any program. -/
def call (f : Nat) (s : Session) (name : String) (args : List Value) : Outcome Value × Session :=
  match s.machine.global? name with
  | some callee => s.conclude (ClassScript.call f callee args s.machine)
  | none => (.failed ⟨.undefinedVariable name, none⟩, s)

def define (s : Session) (name : String) (value : Value) : Session :=
  { s with machine := s.machine.defineGlobal name value }

def setMaxCalls (s : Session) (n : Nat) : Session := { s with machine.maxCalls := n }

/-- Limits the output to so many bytes in all. -/
def limitOutput (s : Session) (bytes : Nat) : Session := { s with machine.sink.room := some bytes }

/-- The output since it was last taken. -/
def takeOutput (s : Session) : ByteArray × Session :=
  (s.machine.sink.written, { s with machine.sink.written := .empty })

end Session
end ClassScript
