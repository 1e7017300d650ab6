/-
# The store

All that a run can change: the frames that hold variables and the fields of objects.
A frame is numbered when it is made and holds the number of the frame around it, if
there is one. Frames are never removed, so a closure keeps its frame by its number.

A name can be looked up in two ways: by search from a frame outwards (`get`,
`assign`), and by depth, in the frame a given number of steps out (`getAt`,
`assignAt`), which is how analysed programs do it.

Key lemmas: `lookup_define` and `lookup_newFrame`, which say what a binding and a new
frame do to every look-up, and `parent?_define`: a binding moves no frame.
-/
import ClassScript.Value.Fault

namespace ClassScript

/-- One level of scope. -/
structure Frame where
  parent : Option Nat
  names : NameTable Value := {}

structure Store where
  frames : Array Frame := #[]
  /-- The fields of each object. -/
  objects : Array (NameTable Value) := #[]
  /-- The number of identities given out to functions and classes. -/
  idents : Nat := 0

namespace Store

/-! ### Frames -/

/-- Makes a frame inside the frame `parent`, or an outermost one. -/
def newFrame (s : Store) (parent : Option Nat) (names : NameTable Value := {}) : Nat × Store :=
  (s.frames.size, { s with frames := s.frames.push ⟨parent, names⟩ })

/-- The frame around a frame. -/
def parent? (s : Store) (frame : Nat) : Option Nat :=
  match s.frames[frame]? with
  | some f => f.parent
  | none => none

/-- The value of a name in one frame. -/
def lookup (s : Store) (frame : Nat) (name : String) : Option Value :=
  match s.frames[frame]? with
  | some f => f.names.find? name
  | none => none

/-- Binds a name in one frame, whether or not it was bound there. -/
def define (s : Store) (frame : Nat) (name : String) (value : Value) : Store :=
  { s with frames := s.frames.modify frame fun f => { f with names := f.names.put name value } }

/-! ### Search -/

/-- A frame and the frames around it, the innermost first. A frame is always made inside an older
one. -/
def chain (s : Store) (frame : Nat) : List Nat :=
  frame :: match s.parent? frame with
    | some p => if p < frame then chain s p else []
    | none => []
termination_by frame

/-- The innermost frame with a name, from a frame outwards. -/
def holder? (s : Store) (frame : Nat) (name : String) : Option Nat :=
  (s.chain frame).find? fun f => (s.lookup f name).isSome

/-- The innermost value of a name. -/
def get (s : Store) (frame : Nat) (name : String) : Option Value :=
  (s.holder? frame name).bind fun f => s.lookup f name

/-- Overwrites the innermost binding of a name, if there is one. -/
@[inline] def assign (s : Store) (frame : Nat) (name : String) (value : Value) : Option Store :=
  (s.holder? frame name).map fun f => s.define f name value

/-! ### Access by depth -/

/-- The frame `depth` steps out of a frame. -/
def ancestor (s : Store) : (depth frame : Nat) → Option Nat
  | 0, frame => some frame
  | depth + 1, frame =>
    match s.parent? frame with
    | some p => ancestor s depth p
    | none => none

/-- The value of a name in the frame `depth` steps out. -/
def getAt (s : Store) (frame depth : Nat) (name : String) : Except Breach Value :=
  match s.ancestor depth frame with
  | none => .error .pastGlobals
  | some f =>
    match s.lookup f name with
    | some v => .ok v
    | none => .error (.missingName name depth)

/-- Binds a name in the frame `depth` steps out. -/
@[inline] def assignAt (s : Store) (frame depth : Nat) (name : String) (value : Value) :
    Except Breach Store :=
  match s.ancestor depth frame with
  | none => .error .pastGlobals
  | some f => .ok (s.define f name value)

/-! ### Identities and objects -/

/-- Gives out an identity. -/
def newIdent (s : Store) : Nat × Store := (s.idents, { s with idents := s.idents + 1 })

/-- Makes an object without fields. -/
def newObject (s : Store) : Nat × Store :=
  (s.objects.size, { s with objects := s.objects.push {} })

/-- A field of an object. -/
def field? (s : Store) (object : Nat) (name : String) : Option Value :=
  match s.objects[object]? with
  | some fields => fields.find? name
  | none => none

/-- Sets a field of an object, whether or not it was there. -/
def setField (s : Store) (object : Nat) (name : String) (value : Value) : Store :=
  { s with objects := s.objects.modify object fun fields => fields.put name value }

/-- A method bound to an object: a function of its own, inside a frame that holds `this`. -/
def bind (s : Store) (method : Closure) (object : Value) : Closure × Store :=
  let (env, s) := s.newFrame (some method.env) (NameTable.empty.put thisName object)
  let (ident, s) := s.newIdent
  ({ method with ident, env }, s)

/-- A property of an object: a field, or a method bound to it. -/
@[inline] def property (s : Store) (object : Nat) (c : Class) (name : String) :
    Option (Value × Store) :=
  match s.field? object name with
  | some v => some (v, s)
  | none =>
    (c.method? name).map fun method =>
      let (bound, s) := s.bind method (.object object c)
      (.function bound, s)

/-! ### What changes of frames do to look-ups -/

@[simp] theorem size_define (s : Store) (frame : Nat) (name : String) (value : Value) :
    (s.define frame name value).frames.size = s.frames.size := by
  simp [define]

theorem getElem?_define (s : Store) (frame other : Nat) (name : String) (value : Value) :
    (s.define frame name value).frames[other]? =
      if frame = other then
        s.frames[other]?.map fun f => { f with names := f.names.put name value }
      else s.frames[other]? := by
  simp [define, Array.getElem?_modify]

/-- Binding a name moves no frame. -/
@[simp] theorem parent?_define (s : Store) (frame other : Nat) (name : String) (value : Value) :
    (s.define frame name value).parent? other = s.parent? other := by
  rw [parent?, parent?, getElem?_define]
  by_cases h : frame = other
  · rw [if_pos h]
    cases s.frames[other]? <;> rfl
  · rw [if_neg h]

/-- **A binding is seen under its own name in its own frame, and nowhere else.** -/
theorem lookup_define (s : Store) {frame : Nat} (h : frame < s.frames.size) (other : Nat)
    (name x : String) (value : Value) :
    (s.define frame name value).lookup other x =
      if frame = other ∧ name = x then some value else s.lookup other x := by
  rw [lookup, getElem?_define]
  by_cases hf : frame = other
  · subst hf
    simp [lookup, Array.getElem?_eq_getElem h, NameTable.find?_put]
  · simp [hf, lookup]

/-- A new frame holds the names it was made with, and the others hold what they held. -/
theorem lookup_newFrame (s : Store) (parent : Option Nat) (names : NameTable Value) (other : Nat)
    (x : String) :
    (s.newFrame parent names).2.lookup other x =
      if other = s.frames.size then names.find? x else s.lookup other x := by
  simp only [newFrame, lookup, Array.getElem?_push]
  by_cases h : other = s.frames.size
  · rw [if_pos h, if_pos h]
  · rw [if_neg h, if_neg h]

theorem parent?_newFrame (s : Store) (parent : Option Nat) (names : NameTable Value)
    (other : Nat) :
    (s.newFrame parent names).2.parent? other =
      if other = s.frames.size then parent else s.parent? other := by
  simp only [newFrame, parent?, Array.getElem?_push]
  by_cases h : other = s.frames.size
  · rw [if_pos h, if_pos h]
  · rw [if_neg h, if_neg h]

end Store
end ClassScript
