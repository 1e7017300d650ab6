/-
# Values with other identities

Of the identities of expressions a value knows those in the code of its functions alone. Put other
identities in their place (`Value.renumber`, `Store.renumber`), and nothing that a program can ask
of a value or of a store is different: its kind, its text, what operators make of it, the values
of names, fields and methods.

Key lemmas: `Store.define_renumber`, `Store.getAt_renumber`, `Store.bind_renumber` and
`Store.property_renumber`.
-/
import ClassScript.Machine.Operation
import ClassScript.Proofs.Syntax.Renumbering

namespace ClassScript

variable {α β : Type}

/-! ### Tables -/

namespace NameTable

def map (g : α → β) (t : NameTable α) : NameTable β := ⟨t.entries.map fun e => (e.1, g e.2)⟩

theorem findIn_map (g : α → β) (x : String) : ∀ entries : List (String × α),
    findIn x (entries.map fun e => (e.1, g e.2)) = (findIn x entries).map g
  | [] => rfl
  | (y, a) :: entries => by
    by_cases h : y = x
    · simp [findIn, h]
    · simp [findIn, h, findIn_map g x entries]

theorem putIn_map (g : α → β) (x : String) (a : α) : ∀ entries : List (String × α),
    putIn x (g a) (entries.map fun e => (e.1, g e.2)) =
      (putIn x a entries).map fun e => (e.1, g e.2)
  | [] => rfl
  | (y, b) :: entries => by
    by_cases h : y = x
    · simp [putIn, h]
    · simp [putIn, h, putIn_map g x a entries]

@[simp] theorem find?_map (g : α → β) (t : NameTable α) (x : String) :
    (t.map g).find? x = (t.find? x).map g := findIn_map g x t.entries

theorem map_put (g : α → β) (t : NameTable α) (x : String) (a : α) :
    (t.put x a).map g = (t.map g).put x (g a) :=
  congrArg NameTable.mk (putIn_map g x a t.entries).symm

theorem map_foldl_put (g : α → β) : ∀ (entries : List (String × α)) (t : NameTable α),
    (entries.foldl (fun t e => t.put e.1 e.2) t).map g =
      (entries.map fun e => (e.1, g e.2)).foldl (fun t e => t.put e.1 e.2) (t.map g)
  | [], _ => rfl
  | e :: entries, t => by
    rw [List.foldl_cons, map_foldl_put g entries, map_put, List.map_cons, List.foldl_cons]

theorem map_ofList (g : α → β) (entries : List (String × α)) :
    (ofList entries).map g = ofList (entries.map fun e => (e.1, g e.2)) :=
  map_foldl_put g entries empty

end NameTable

/-! ### Values -/

/-- The function with other identities in its code. -/
def Closure.renumber (κ : Nat → Nat) (c : Closure) : Closure := { c with decl := c.decl.mapIds κ }

def ClassBody.renumber (κ : Nat → Nat) (b : ClassBody) : ClassBody :=
  { b with methods := b.methods.map (Closure.renumber κ) }

def Class.renumber (κ : Nat → Nat) (c : Class) : Class :=
  ⟨c.own.renumber κ, c.inherited.map (ClassBody.renumber κ)⟩

/-- The value with other identities in the code of its functions. -/
def Value.renumber (κ : Nat → Nat) : Value → Value
  | .function c => .function (c.renumber κ)
  | .cls c => .cls (c.renumber κ)
  | .object i c => .object i (c.renumber κ)
  | v => v

section

variable (κ : Nat → Nat)

@[simp] theorem Class.method?_renumber (c : Class) (x : String) :
    (c.renumber κ).method? x = (c.method? x).map (Closure.renumber κ) := by
  have hchain : (c.renumber κ).chain = c.chain.map (ClassBody.renumber κ) := rfl
  have hbody : ∀ b : ClassBody,
      (b.renumber κ).methods.find? x = (b.methods.find? x).map (Closure.renumber κ) :=
    fun b => NameTable.find?_map _ b.methods x
  rw [Class.method?, Class.method?, hchain, List.findSome?_map, List.map_findSome?]
  exact congrArg (List.findSome? · c.chain) (funext hbody)

@[simp] theorem Closure.arity_renumber (c : Closure) : (c.renumber κ).arity = c.arity := by
  simp [Closure.arity, Closure.renumber]

@[simp] theorem Value.kind_renumber (v : Value) : (v.renumber κ).kind = v.kind := by
  cases v <;> rfl

@[simp] theorem Value.isTrue_renumber (v : Value) : (v.renumber κ).isTrue = v.isTrue := by
  cases v <;> rfl

@[simp] theorem Value.display_renumber (v : Value) : (v.renumber κ).display = v.display := by
  cases v with
  | function c => simp [Value.renumber, Value.display, Closure.name, Closure.renumber]
  | nil | bool | number | text | native | cls | object => rfl

@[simp] theorem Value.arity?_renumber (v : Value) : (v.renumber κ).arity? = v.arity? := by
  cases v with
  | function c => simp [Value.renumber, Value.arity?]
  | cls c =>
    simp only [Value.renumber, Value.arity?, Class.arity, Class.init?, Class.method?_renumber]
    cases c.method? initName <;> simp
  | nil | bool | number | text | native | object => rfl

@[simp] theorem Value.same_renumber (v w : Value) :
    (v.renumber κ).same (w.renumber κ) = v.same w := by
  cases v <;> cases w <;> rfl

@[simp] theorem Literal.value_renumber (l : Literal) : l.value.renumber κ = l.value := by
  cases l <;> rfl

@[simp] theorem LogicalOp.settledBy_renumber (op : LogicalOp) (v : Value) :
    op.settledBy (v.renumber κ) = op.settledBy v := by
  cases op <;> simp [LogicalOp.settledBy]

theorem UnaryOp.apply_renumber (op : UnaryOp) (v : Value) :
    op.apply (v.renumber κ) = (op.apply v).map (Value.renumber κ) := by
  cases op <;> cases v <;> rfl

theorem BinaryOp.apply_renumber (op : BinaryOp) (v w : Value) :
    op.apply (v.renumber κ) (w.renumber κ) = (op.apply v w).map (Value.renumber κ) := by
  cases op with
  | equal => exact congrArg (fun b => Except.ok (Value.bool b)) (v.same_renumber κ w)
  | notEqual => exact congrArg (fun b => Except.ok (Value.bool !b)) (v.same_renumber κ w)
  | add | sub | mul | div | less | greater | lessEqual | greaterEqual =>
    cases v <;> cases w <;> rfl

theorem Value.toNumber_renumber (v : Value) :
    (v.renumber κ).toNumber = v.toNumber.map (Value.renumber κ) := by
  cases v with
  | text s =>
    simp only [Value.renumber, Value.toNumber]
    split <;> rfl
  | nil | bool | number | native | function | cls | object => rfl

end

/-! ### Stores -/

theorem modify_map {g : α → β} {p : α → α} {q : β → β} (h : ∀ a, q (g a) = g (p a)) (xs : Array α)
    (i : Nat) : (xs.map g).modify i q = (xs.modify i p).map g := by
  refine Array.ext_getElem? fun j => ?_
  simp only [Array.getElem?_modify, Array.getElem?_map]
  by_cases hj : i = j
  · simp [hj, Function.comp_def, h]
  · simp [hj]

def Frame.renumber (κ : Nat → Nat) (f : Frame) : Frame :=
  { f with names := f.names.map (Value.renumber κ) }

/-- The store with other identities in the code of all functions. -/
def Store.renumber (κ : Nat → Nat) (s : Store) : Store where
  frames := s.frames.map (Frame.renumber κ)
  objects := s.objects.map (NameTable.map (Value.renumber κ))
  idents := s.idents

namespace Store

variable (κ : Nat → Nat) (s : Store)

@[simp] theorem parent?_renumber (frame : Nat) :
    (s.renumber κ).parent? frame = s.parent? frame := by
  simp only [parent?, renumber, Array.getElem?_map]
  cases s.frames[frame]? <;> rfl

@[simp] theorem lookup_renumber (frame : Nat) (x : String) :
    (s.renumber κ).lookup frame x = (s.lookup frame x).map (Value.renumber κ) := by
  simp only [lookup, renumber, Array.getElem?_map]
  cases s.frames[frame]? with
  | none => rfl
  | some f => exact NameTable.find?_map _ _ _

theorem define_renumber (frame : Nat) (x : String) (v : Value) :
    (s.renumber κ).define frame x (v.renumber κ) = (s.define frame x v).renumber κ := by
  simp only [define, renumber, mk.injEq, and_true]
  exact modify_map
    (fun f => congrArg (Frame.mk f.parent) (NameTable.map_put _ f.names x v).symm) _ _

theorem newFrame_renumber (parent : Option Nat) (names : NameTable Value) :
    (s.renumber κ).newFrame parent (names.map (Value.renumber κ)) =
      (s.newFrame parent names).map id (Store.renumber κ) := by
  simp [newFrame, renumber, Frame.renumber]

@[simp] theorem ancestor_renumber : ∀ depth frame : Nat,
    (s.renumber κ).ancestor depth frame = s.ancestor depth frame
  | 0, _ => rfl
  | depth + 1, frame => by
    rw [ancestor, ancestor, parent?_renumber]
    cases s.parent? frame with
    | none => rfl
    | some p => exact ancestor_renumber depth p

theorem getAt_renumber (frame depth : Nat) (x : String) :
    (s.renumber κ).getAt frame depth x = (s.getAt frame depth x).map (Value.renumber κ) := by
  rw [getAt, getAt, ancestor_renumber]
  cases s.ancestor depth frame with
  | none => rfl
  | some f =>
    dsimp only
    rw [lookup_renumber]
    cases s.lookup f x <;> rfl

theorem assignAt_renumber (frame depth : Nat) (x : String) (v : Value) :
    (s.renumber κ).assignAt frame depth x (v.renumber κ) =
      (s.assignAt frame depth x v).map (Store.renumber κ) := by
  rw [assignAt, assignAt, ancestor_renumber]
  cases s.ancestor depth frame with
  | none => rfl
  | some f => exact congrArg Except.ok (define_renumber κ s f x v)

theorem get_global_renumber (x : String) :
    (s.renumber κ).get globalFrame x = (s.get globalFrame x).map (Value.renumber κ) := by
  rw [get_global, get_global, lookup_renumber]

theorem assign_global_renumber (x : String) (v : Value) :
    (s.renumber κ).assign globalFrame x (v.renumber κ) =
      (s.assign globalFrame x v).map (Store.renumber κ) := by
  rw [assign_global, assign_global, lookup_renumber, Option.isSome_map, define_renumber]
  split <;> rfl

theorem newObject_renumber :
    (s.renumber κ).newObject = s.newObject.map id (Store.renumber κ) := by
  simp only [newObject, renumber, Array.size_map, Prod.map, Array.map_push]
  rfl

theorem field?_renumber (object : Nat) (x : String) :
    (s.renumber κ).field? object x = (s.field? object x).map (Value.renumber κ) := by
  simp only [field?, renumber, Array.getElem?_map]
  cases s.objects[object]? with
  | none => rfl
  | some fields => exact NameTable.find?_map _ _ _

theorem setField_renumber (object : Nat) (x : String) (v : Value) :
    (s.renumber κ).setField object x (v.renumber κ) = (s.setField object x v).renumber κ := by
  simp only [setField, renumber, mk.injEq, and_true, true_and]
  exact modify_map (fun fields => (NameTable.map_put _ fields x v).symm) _ _

theorem bind_renumber (method : Closure) (object : Value) :
    (s.renumber κ).bind (method.renumber κ) (object.renumber κ) =
      (s.bind method object).map (Closure.renumber κ) (Store.renumber κ) := by
  have hframe := newFrame_renumber κ s (some method.env) (NameTable.empty.put thisName object)
  rw [NameTable.map_put] at hframe
  have hempty : NameTable.empty.map (Value.renumber κ) = NameTable.empty := rfl
  rw [hempty] at hframe
  simp only [bind, Closure.renumber, hframe]
  rfl

theorem property_renumber (object : Nat) (c : Class) (x : String) :
    (s.renumber κ).property object (c.renumber κ) x =
      (s.property object c x).map (Prod.map (Value.renumber κ) (Store.renumber κ)) := by
  rw [property, property, field?_renumber]
  cases s.field? object x with
  | some v => rfl
  | none =>
    simp only [Option.map_none, Class.method?_renumber, Option.map_map]
    cases c.method? x with
    | none => rfl
    | some method =>
      have hbind := bind_renumber κ s method (.object object c)
      simp only [Value.renumber] at hbind
      simp only [Option.map_some, Function.comp_apply, hbind]
      rfl

end Store

end ClassScript
