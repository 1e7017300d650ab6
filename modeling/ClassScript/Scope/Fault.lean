/-
# Scope errors

The faults that can be seen in a tree without running it.
-/
import ClassScript.Diagnostic.Message
import ClassScript.Text.Span

namespace ClassScript

inductive ScopeProblem where
  | selfInheritance
  | returnAtTopLevel
  | returnValueFromInit
  | thisOutsideClass
  | superOutsideClass
  | superWithoutSuperclass
  /-- A second declaration of a name in one local scope. -/
  | duplicate (name : String)
  /-- A local variable is read while its own initializer is evaluated. -/
  | readInOwnInitializer (name : String)
  deriving DecidableEq, Repr

structure ScopeError where
  problem : ScopeProblem
  span : Span
  deriving DecidableEq, Repr

namespace ScopeError

/-- The variable that the error is about, if it is about one. -/
def name? (e : ScopeError) : Option String :=
  match e.problem with
  | .duplicate x | .readInOwnInitializer x => some x
  | _ => none

def message (e : ScopeError) : String :=
  let detail := match e.problem with
    | .selfInheritance => "a class can't inherit from itself"
    | .returnAtTopLevel => "can't return from top-level code"
    | .returnValueFromInit => "can't return a value from an initializer"
    | .thisOutsideClass => "can't use 'this' outside of a class"
    | .superOutsideClass => "can't use 'super' outside of a class"
    | .superWithoutSuperclass => "can't use 'super' in a class with no superclass"
    | .duplicate x => "already a variable named \"" ++ x ++ "\" in this scope"
    | .readInOwnInitializer x => "can't read local variable \"" ++ x ++ "\" in its own initializer"
  Diagnostic.message "error" (some detail) none

end ScopeError
end ClassScript
