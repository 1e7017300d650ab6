/-
# What a program shows

A `Transcript` is what went to the two output channels of a process.
-/

namespace ClassScript

structure Transcript where
  out : String := ""
  err : String := ""
  deriving DecidableEq, Repr

namespace Transcript

/-- One transcript after another. -/
def append (t u : Transcript) : Transcript := ⟨t.out ++ u.out, t.err ++ u.err⟩

instance : Append Transcript := ⟨append⟩

def ofOut (text : String) : Transcript := { out := text }

def ofErr (text : String) : Transcript := { err := text }

end Transcript
end ClassScript
