/-
# Operations on frames

What a host does with frames one by one: it makes them, binds names in them, and looks names up and
overwrites them, by search or by depth. Each operation names frames that were made before
(`FrameOp.frame?`). A search that finds nothing is an error and changes nothing; a depth that leads
nowhere is a broken invariant.
-/
import ClassScript.Value.Store

namespace ClassScript

/-- An operation on frames. -/
inductive FrameOp where
  | newGlobal
  | newLocal (parent : Nat)
  | define (frame : Nat) (name : String) (value : Value)
  | get (frame : Nat) (name : String)
  | assign (frame : Nat) (name : String) (value : Value)
  | getAt (frame depth : Nat) (name : String)
  | assignAt (frame depth : Nat) (name : String) (value : Value)

/-- The frame that an operation begins at. -/
def FrameOp.frame? : FrameOp → Option Nat
  | .newGlobal => none
  | .newLocal frame | .define frame _ _ | .get frame _ | .assign frame _ _ | .getAt frame _ _
  | .assignAt frame _ _ _ => some frame

/-- What an operation on frames gives. -/
inductive FrameReply where
  | frame (number : Nat)
  | value (v : Value)
  | done
  | failed (fault : Fault)
  | broken (breach : Breach)

/-- Does an operation on frames. -/
def Store.perform (s : Store) : FrameOp → FrameReply × Store
  | .newGlobal =>
    let (frame, s) := s.newFrame none
    (.frame frame, s)
  | .newLocal parent =>
    let (frame, s) := s.newFrame (some parent)
    (.frame frame, s)
  | .define frame name value => (.done, s.define frame name value)
  | .get frame name =>
    match s.get frame name with
    | some v => (.value v, s)
    | none => (.failed (.undefinedVariable name), s)
  | .assign frame name value =>
    match s.assign frame name value with
    | some s => (.done, s)
    | none => (.failed (.undefinedVariable name), s)
  | .getAt frame depth name =>
    match s.getAt frame depth name with
    | .ok v => (.value v, s)
    | .error breach => (.broken breach, s)
  | .assignAt frame depth name value =>
    match s.assignAt frame depth name value with
    | .ok s => (.done, s)
    | .error breach => (.broken breach, s)

end ClassScript
