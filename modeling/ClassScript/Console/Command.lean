/-
# The command line

    [FILE] [-c CMD] [-i] [-P] [--]

A script is run, or its tree is shown (`-P`). After a run, or without a script, the
interactive loop begins (`-i`). The exit code is that of the script. Behind `--` there
are no more options, and a single `-` is a file like any other.
-/
import ClassScript.Console.Repl

namespace ClassScript

/-- What the arguments of the process ask for. -/
structure Command where
  file : Option String := none
  command : Option String := none
  interactive : Bool := false
  treeOnly : Bool := false

namespace Command

/-- One group of option letters. Gives whether the argument behind it is a command. -/
def letters (c : Command) : List Char → Command × Bool
  | [] => (c, false)
  | 'i' :: rest => letters { c with interactive := true } rest
  | 'P' :: rest => letters { c with treeOnly := true } rest
  | ['c'] => (c, true)
  | 'c' :: '=' :: rest => ({ c with command := some (String.ofList rest) }, false)
  | 'c' :: rest => ({ c with command := some (String.ofList rest) }, false)
  | _ :: rest => letters c rest

/-- A file to be run. -/
def named (c : Command) (path : String) : Command := { c with file := some path }

/-- Reads the arguments of the process. -/
def ofArguments (c : Command) : List String → Command
  | [] => c
  | arg :: args =>
    match arg.toList with
    | ['-', '-'] => args.foldl named c
    | '-' :: first :: rest =>
      match letters c (first :: rest) with
      | (c, false) => ofArguments c args
      | (c, true) =>
        match args with
        | [] => c
        | text :: args => ofArguments { c with command := some text } args
    | _ => ofArguments (c.named arg) args

/-- The script that is asked for, where `look` gives what a path leads to. -/
def script? (c : Command) (look : String → Entry) : Option Script :=
  match c.command with
  | some text => some (.ofCommand text)
  | none => c.file.map fun path => .ofEntry path (look path)

/-- What has been shown before any line of input is read, the exit code, and the interactive loop
if it is asked for. -/
structure Launch where
  shown : Transcript
  code : Nat
  repl : Option Repl

/-- Does what is asked for, up to the first line of input. -/
def launch (f : Nat) (session : Session) (c : Command) (look : String → Entry) : Launch :=
  match c.script? look with
  | none => ⟨.ofOut Repl.banner, 0, some { session }⟩
  | some script =>
    if c.treeOnly then
      let (shown, code) := script.showTree
      ⟨shown, code, none⟩
    else
      let (shown, code, session) := script.run f session
      if c.interactive then ⟨shown ++ .ofOut Repl.banner, code, some { session }⟩
      else ⟨shown, code, none⟩

/-- Does all that is asked for. -/
def run (f : Nat) (session : Session) (c : Command) (look : String → Entry)
    (input : List InputLine) : Transcript × Nat :=
  let l := c.launch f session look
  match l.repl with
  | none => (l.shown, l.code)
  | some r => (l.shown ++ r.interact f input, l.code)

end Command
end ClassScript
