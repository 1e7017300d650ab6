/-
# The program

Reads files and standard input for the command line of `ClassScript.Command`.
-/
import ClassScript.Console.Command

namespace ClassScript

/-- A clock that goes on a microsecond whenever it is asked. -/
def tickingClock (readings : Nat) : Float := (readings + 1).toFloat / 1000000

/-- What a path leads to. -/
def lookUp (path : String) : IO Entry := do
  try
    let octets ← IO.FS.readBinFile path
    return .file octets.toList
  catch
    | .noFileOrDirectory .. => return .closed .missing
    | .inappropriateType (some _) .. => return .closed .notADirectory
    | .invalidArgument .. => return .closed .nameTooLong
    | _ => return .directory

/-- Shows what is to be shown. -/
def showTranscript (t : Transcript) : IO Unit := do
  IO.print t.out
  (← IO.getStdout).flush
  IO.eprint t.err

/-- Reads standard input up to a line feed or its end. The octets read so far are in `found`, the
last one first. -/
partial def readOctets (input : IO.FS.Stream) (found : List UInt8) : IO (List UInt8) := do
  match (← input.read 1).toList with
  | [b] => if b = 0x0a then return (b :: found).reverse else readOctets input (b :: found)
  | _ => return found.reverse

/-- Reads and runs inputs until there are no more. -/
partial def interactLoop (input : IO.FS.Stream) (r : Repl) : IO Unit := do
  showTranscript (.ofOut r.prompt)
  let line ← readOctets input []
  let (shown, next) := r.feed ampleFuel (.ofLine line)
  showTranscript shown
  match next with
  | none => return
  | some r => interactLoop input r

end ClassScript

open ClassScript in
def main (args : List String) : IO UInt32 := do
  let c := Command.ofArguments {} args
  let entry ← match c.file with
    | some path => lookUp path
    | none => pure (.closed .missing)
  let l := c.launch ampleFuel (.initial tickingClock) fun _ => entry
  showTranscript l.shown
  match l.repl with
  | some r => interactLoop (← IO.getStdin) r
  | none => pure ()
  return l.code.toUInt32
