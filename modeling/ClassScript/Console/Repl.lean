/-
# The interactive loop

The loop reads lines until they make a whole input, runs it, and goes on. An input is
whole if it parses, or if no error in it lies at its end, where more text could mend it
(`isIncomplete`). A blank line ends an input that is not whole. The value of an
expression at the end of an input is printed.

`Repl.feed` takes one line and `Repl.interact` all the lines of an input channel.
-/
import ClassScript.Console.Script

namespace ClassScript

/-- What reading a line of input yields. -/
inductive InputLine where
  | text (s : String)
  /-- A line that is not UTF-8. -/
  | malformed
  | ended

/-- A line with its line feed, or the end of the input channel if there is nothing to read. -/
def InputLine.ofLine : List UInt8 → InputLine
  | [] => .ended
  | line =>
    match Utf8.decode? line with
    | some cs => .text (String.ofList cs)
    | none => .malformed

/-- The lines of an input channel. -/
def InputLine.ofBytes (octets : List UInt8) : List InputLine :=
  (CharStream.byteLines octets).map InputLine.ofLine

structure Repl where
  session : Session
  /-- The lines of an input that is not whole yet. -/
  input : String := ""

namespace Repl

/-- What is shown when the loop begins. -/
def banner : String := "\nloxwalk 0.3.1\n\n"

/-- What is shown in front of a line. -/
def prompt (r : Repl) : String := if r.input.isEmpty then ">>> " else "... "

/-- Whether an input fails to parse because of something at its end. -/
def isIncomplete (input : String) : Bool :=
  let stop := (Text.trimEnd input).length
  ((CharStream.ofString input).parse 0).errors.any fun e => stop ≤ e.span.stop

/-- The program with an expression at its end turned into a statement that prints it. -/
def echoLast : List Stmt → List Stmt
  | [] => []
  | [.expression span e] => [.print span e]
  | [s] => [s]
  | s :: t :: ss => s :: echoLast (t :: ss)

/-- Runs a whole input. -/
def runInput (f : Nat) (session : Session) (input : String) : Transcript × Session :=
  let text := input.toList
  let parse := (CharStream.ofString input).parse session.nextId
  let session := { session with nextId := parse.nextId }
  let built := match parse.program with
    | .ok body => Program.ofTrees (echoLast body)
    | .error errors => .error (.parsing errors)
  match built with
  | .error e => (Complaint.report (.ok text) e.complaints, session)
  | .ok p =>
    let (outcome, session) := session.execute f p
    let (written, session) := Script.takeWritten session
    (written ++ Script.reportOutcome (.ok text) outcome, session)

/-- Runs the input read so far and begins a new one. -/
def submit (f : Nat) (r : Repl) : Transcript × Option Repl :=
  let (shown, session) := runInput f r.session r.input
  (shown, some { session })

/-- Takes one line. The loop is over if there is no state after it. -/
def feed (f : Nat) (r : Repl) : InputLine → Transcript × Option Repl
  | .ended => (.ofOut "\n", none)
  | .malformed =>
    (.ofErr ("Could not read input: " ++ ReadFailure.malformed.reason ++ "\n"), some r)
  | .text s =>
    let line := Text.trimEnd s
    if line.isEmpty then
      if r.input.isEmpty then ({}, some r) else r.submit f
    else if line = "quit" then (.ofOut "\n", none)
    else
      let r := { r with input := r.input ++ line ++ "\n" }
      if isIncomplete r.input then ({}, some r) else r.submit f

/-- Takes all lines of an input channel, with a prompt in front of each. -/
def interact (f : Nat) (r : Repl) : List InputLine → Transcript
  | [] => .ofOut r.prompt ++ (r.feed f .ended).1
  | line :: lines =>
    let (shown, next) := r.feed f line
    let shown := .ofOut r.prompt ++ shown
    match next with
    | none => shown
    | some r => shown ++ interact f r lines

end Repl
end ClassScript
