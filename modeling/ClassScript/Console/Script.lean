/-
# Running a script

A script is a named text: a file, or a command given as an argument. Running one
reports its errors together with their source lines. The source is read again for
that; where it cannot be read a second time, the errors are reported alone.
-/
import ClassScript.Console.Transcript
import ClassScript.Diagnostic.Excerpt
import ClassScript.Session
import ClassScript.Syntax.Dump

namespace ClassScript

/-- Why a path cannot be opened. -/
inductive OpenFault where
  | missing
  /-- The path goes on behind a file. -/
  | notADirectory
  | nameTooLong
  deriving DecidableEq, Repr

def OpenFault.failure : OpenFault → ReadFailure
  | .missing => ⟨"No such file or directory (os error 2)"⟩
  | .notADirectory => ⟨"Not a directory (os error 20)"⟩
  | .nameTooLong => ⟨"File name too long (os error 36)"⟩

/-- What a path leads to. -/
inductive Entry where
  | closed (fault : OpenFault)
  | directory
  | file (octets : List UInt8)

structure Script where
  name : String
  /-- What reading it yields, unless it cannot be opened. -/
  contents : Except ReadFailure CharStream

namespace Script

/-- A file. A directory can be opened, but not read. -/
def ofEntry (path : String) : Entry → Script
  | .closed fault => ⟨path, .error fault.failure⟩
  | .directory => ⟨path, .ok [.error ⟨"Is a directory (os error 21)"⟩]⟩
  | .file octets => ⟨path, .ok (.ofBytes octets)⟩

/-- A command given as an argument. -/
def ofCommand (text : String) : Script := ⟨"<cmd>", .ok (.ofString text)⟩

end Script

/-- A message and the place it is about. -/
structure Complaint where
  message : String
  span : Option Span

def BuildError.complaints : BuildError → List Complaint
  | .parsing errors => errors.map fun e => ⟨e.message, e.span⟩
  | .scoping errors => errors.map fun e => ⟨e.message, e.span⟩

/-- Reports messages about a text, with their source lines if the text can be read. -/
def Complaint.report (text : Except ReadFailure (List Char)) (complaints : List Complaint) :
    Transcript :=
  let failure := match text with
    | .ok _ => ""
    | .error e => "Could not read source to report errors: " ++ e.reason ++ ".\n"
  .ofErr (complaints.foldl (fun out c => out ++ Diagnostic.printed text.toOption c.message c.span)
    failure)

/-- The exit code of a script that cannot be built. -/
def buildErrorCode : Nat := 65

/-- The exit code of a script that a runtime error stops. -/
def runtimeErrorCode : Nat := 70

namespace Script

/-- Reports why a script cannot be opened. -/
def reportUnopened (failure : ReadFailure) : Transcript :=
  .ofErr ("Error reading source: " ++ failure.reason ++ ".\n")

/-- Reports why a script cannot be built. -/
def reportUnbuilt (s : Script) (stream : CharStream) (e : BuildError) : Transcript :=
  .ofErr ("Errors in " ++ s.name ++ ":\n\n") ++ Complaint.report stream.text e.complaints

/-- What a run wrote, and the session without it. -/
def takeWritten (s : Session) : Transcript × Session :=
  let (written, s) := s.takeOutput
  (.ofOut (Utf8.decodeLossy written.toList), s)

/-- Reports how a run ended that did not end well. -/
def reportOutcome (text : Except ReadFailure (List Char)) : Outcome Unit → Transcript
  | .failed e => Complaint.report text [⟨e.message, e.span⟩]
  | .broken b => .ofErr (b.message ++ "\n")
  | _ => {}

/-- Runs a script: what it shows, its exit code and the session after it. -/
def run (f : Nat) (session : Session) (s : Script) : Transcript × Nat × Session :=
  match s.contents with
  | .error failure => (reportUnopened failure, buildErrorCode, session)
  | .ok stream =>
    let (outcome, session) := session.run f stream
    let (written, session) := takeWritten session
    match outcome with
    | .ok _ => (written, 0, session)
    | .unbuilt e => (written ++ s.reportUnbuilt stream e, buildErrorCode, session)
    | o => (written ++ reportOutcome stream.text o, runtimeErrorCode, session)

/-- Shows the tree of a script. -/
def showTree (s : Script) : Transcript × Nat :=
  match s.contents with
  | .error failure => (reportUnopened failure, buildErrorCode)
  | .ok stream =>
    match (stream.parse 0).program with
    | .ok program => (.ofOut (dumpProgram program ++ "\n"), 0)
    | .error errors => (s.reportUnbuilt stream (.parsing errors), buildErrorCode)

end Script
end ClassScript
