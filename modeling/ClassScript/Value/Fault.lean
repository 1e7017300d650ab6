/-
# Runtime errors

What can stop a run. A runtime error carries the span of the innermost expression or
statement whose evaluation raised it, once it has passed through one.

A `Breach` is not an error of the program but of the machine that runs it: a depth
that leads nowhere, a name that is missing where the analysis found it. Programs that
have passed the analysis never meet one.
-/
import ClassScript.Decimal.Numeral
import ClassScript.Value

namespace ClassScript

inductive Fault where
  | undefinedVariable (name : String)
  | undefinedProperty (name : String)
  | notCallable (kind : Kind)
  /-- The first part is how the callee is printed. -/
  | wrongArity (callee : String) (arity given : Nat)
  | unaryOperand (op : UnaryOp) (kind : Kind)
  | binaryOperands (op : BinaryOp) (left right : Kind)
  | noProperties (kind : Kind)
  | notAClass (kind : Kind)
  /-- A text is not a number. -/
  | notANumber (text : String) (cause : Decimal.NumeralFault)
  /-- A value of this type cannot be made a number. -/
  | notNumeric (kind : Kind)
  | outputFailed (reason : String)
  /-- Calls nest too deep. -/
  | tooDeep
  deriving DecidableEq, Repr

namespace Fault

/-- Whether the error is about the run as a whole. -/
def isFatal : Fault → Bool
  | .tooDeep => true
  | _ => false

/-- What happened, without a title and a cause. -/
def text : Fault → String
  | .undefinedVariable x => "undefined variable \"" ++ x ++ "\""
  | .undefinedProperty x => "undefined property \"" ++ x ++ "\""
  | .notCallable k => "type '" ++ k.name ++ "' is not callable"
  | .wrongArity callee arity given =>
    callee ++ " takes " ++ toString arity ++ (if arity = 1 then " argument" else " arguments") ++
      " but " ++ toString given ++ (if given = 1 then " was" else " were") ++ " given"
  | .unaryOperand op k => "unsupported operand for '" ++ op.symbol.text ++ "': '" ++ k.name ++ "'"
  | .binaryOperands op l r =>
    "unsupported operands for '" ++ op.symbol.text ++ "': '" ++ l.name ++ "' and '" ++ r.name ++ "'"
  | .noProperties k => "type '" ++ k.name ++ "' has no properties"
  | .notAClass k => "superclass must be a class, not '" ++ k.name ++ "'"
  | .notANumber s _ => "could not convert \"" ++ s ++ "\" to a number"
  | .notNumeric k => "can't convert type '" ++ k.name ++ "' to a number"
  | .outputFailed _ => "could not write output"
  | .tooDeep => "maximum recursion depth exceeded"

/-- What the error goes back to, if it is not an error of its own. -/
def cause : Fault → Option String
  | .notANumber _ cause => some cause.message
  | .outputFailed reason => some reason
  | _ => none

def title (f : Fault) : String := if f.isFatal then "fatal error" else "runtime error"

def message (f : Fault) : String := Diagnostic.message f.title (some f.text) f.cause

end Fault

/-- A fault and the place it is attributed to. -/
structure RuntimeError where
  fault : Fault
  span : Option Span := none
  deriving DecidableEq, Repr

namespace RuntimeError

def message (e : RuntimeError) : String := e.fault.message

/-- The error with a place, unless it has one already. -/
def locate (e : RuntimeError) (span : Span) : RuntimeError :=
  { e with span := some (e.span.getD span) }

end RuntimeError

/-- A broken invariant of the machine. -/
inductive Breach where
  /-- A depth leads beyond the outermost frame. -/
  | pastGlobals
  /-- A name is missing in the frame where the analysis found it. -/
  | missingName (name : String) (depth : Nat)
  | superUnresolved
  /-- The depth of a `super` leaves no room for the frame of `this`. -/
  | superInnermost
  | superNotAClass
  | thisNotAnObject
  | initWithoutThis
  | missingArgument
  deriving DecidableEq, Repr

def Breach.message : Breach → String
  | .pastGlobals => "resolved depth walked past the global environment"
  | .missingName name depth =>
    "resolved name \"" ++ name ++ "\" missing at depth " ++ toString depth
  | .superUnresolved => "super expression was not resolved"
  | .superInnermost => "super was resolved to the innermost environment"
  | .superNotAClass => "super is bound to a class"
  | .thisNotAnObject => "this is bound to an instance"
  | .initWithoutThis => "resolved name \"this\" missing at depth 0"
  | .missingArgument => "argument count checked by caller"

end ClassScript
