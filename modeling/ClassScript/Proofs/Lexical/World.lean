/-
# Worlds

A run of the machine makes frames, and a run under lexical scoping makes cells. A `World`
says how the two belong together: which frames there are, what surrounds them, which names
are bound in them, and which cell stands for which name of which frame.

A chain of frames and an environment are `Linked` if both stand for the scopes that the
analysis had on its stack: each frame is an instance of its scope, and the environment has
for each name the cell of the nearest frame whose scope holds it. Values are `Alike` if
they differ only in that the functions in them have linked frames and environments. What
is linked or alike stays so when the world grows (`Linked.mono`, `Alike.mono`).
-/
import ClassScript.Proofs.Lexical.Semantics
import ClassScript.Proofs.Scope.Accepted

namespace ClassScript
namespace Lexical

open Scope

structure World where
  /-- The programs that were run. -/
  texts : List Program
  /-- The number of frames. -/
  size : Nat
  /-- The frame around a frame. -/
  parent : Nat → Option Nat
  /-- The names that the source declares in the scope of a frame. -/
  declares : Nat → List String
  /-- Whether a name is bound in a frame. -/
  bound : Nat → String → Prop
  /-- The cell of a name of a frame. -/
  place : Nat → String → Option Nat

/-- All there is in `W` is in `W'` too. -/
structure Extends (W W' : World) : Prop where
  texts : ∀ p ∈ W.texts, p ∈ W'.texts
  size : W.size ≤ W'.size
  parent : ∀ φ < W.size, W'.parent φ = W.parent φ
  declares : ∀ φ < W.size, W'.declares φ = W.declares φ
  bound : ∀ φ < W.size, ∀ x, W.bound φ x → W'.bound φ x
  kept : ∀ φ < W.size, ∀ x cell, W.place φ x = some cell → W'.place φ x = some cell

/-- From `W` to `W'` no names of old frames got cells but the names `xs` of the frame `φ`. -/
structure Grows (φ : Nat) (xs : List String) (W W' : World) : Prop extends Extends W W' where
  same : W'.texts = W.texts
  place : ∀ ψ < W.size, ∀ x, ¬ (ψ = φ ∧ x ∈ xs) → W'.place ψ x = W.place ψ x

variable {W W' W'' : World} {φ ψ : Nat} {xs ys : List String}

theorem Extends.refl (W : World) : Extends W W :=
  ⟨fun _ h => h, Nat.le_refl _, fun _ _ => rfl, fun _ _ => rfl, fun _ _ _ h => h, fun _ _ _ _ h => h⟩

theorem Extends.trans (h : Extends W W') (h' : Extends W' W'') : Extends W W'' := by
  have hlt : ∀ {φ}, φ < W.size → φ < W'.size := fun hφ => Nat.lt_of_lt_of_le hφ h.size
  refine ⟨fun p hp => h'.texts p (h.texts p hp), Nat.le_trans h.size h'.size, ?_, ?_, ?_, ?_⟩
  · intro φ hφ
    rw [h'.parent φ (hlt hφ), h.parent φ hφ]
  · intro φ hφ
    rw [h'.declares φ (hlt hφ), h.declares φ hφ]
  · exact fun φ hφ x hx => h'.bound φ (hlt hφ) x (h.bound φ hφ x hx)
  · exact fun φ hφ x cell hx => h'.kept φ (hlt hφ) x cell (h.kept φ hφ x cell hx)

/-- Another program takes nothing away. -/
theorem Extends.text (W : World) (p : Program) : Extends W { W with texts := p :: W.texts } :=
  ⟨fun _ hq => .tail _ hq, Nat.le_refl _, fun _ _ => rfl, fun _ _ => rfl, fun _ _ _ hx => hx,
    fun _ _ _ _ hx => hx⟩

namespace Grows

theorem refl (φ : Nat) (xs : List String) (W : World) : Grows φ xs W W :=
  ⟨.refl W, rfl, fun _ _ _ _ => rfl⟩

theorem trans (h : Grows φ xs W W') (h' : Grows φ xs W' W'') : Grows φ xs W W'' := by
  refine ⟨h.toExtends.trans h'.toExtends, h'.same.trans h.same, fun ψ hψ x hx => ?_⟩
  rw [h'.place ψ (Nat.lt_of_lt_of_le hψ h.size) x hx, h.place ψ hψ x hx]

theorem mono (h : Grows φ xs W W') (hsub : ∀ x ∈ xs, x ∈ ys) : Grows φ ys W W' :=
  ⟨h.toExtends, h.same, fun ψ hψ x hx => h.place ψ hψ x fun hmem => hx ⟨hmem.1, hsub x hmem.2⟩⟩

end Grows

/-! ### Frames and scopes -/

/-- The frame `φ` is an instance of a scope: it has cells for all names of the scope, and those
that are defined are bound in it, but for the class whose superclass is looked at. -/
structure Instance (W : World) (φ : Nat) (awaiting : Option String) (scope : NameTable Readiness)
    (names : List String) : Prop where
  inside : φ < W.size
  declares : W.declares φ = names
  bound : ∀ x, scope.find? x = some .defined → awaiting ≠ some x → W.bound φ x
  placed : ∀ x, scope.contains x = true → (W.place φ x).isSome

/-- The frames from `φ` outwards are instances of the scopes, up to the global frame. -/
def Instances (W : World) :
    Nat → Option String → List (NameTable Readiness) → List (List String) → Prop
  | φ, _, [], [] => φ = globalFrame
  | φ, awaiting, scope :: scopes, names :: declares =>
    Instance W φ awaiting scope names ∧
      ∃ outer < φ, W.parent φ = some outer ∧ Instances W outer none scopes declares
  | _, _, _, _ => False

/-- The cell of a name, seen from the frame `φ`. -/
def placeOf (W : World) : Nat → List (NameTable Readiness) → String → Option Nat
  | _, [], _ => none
  | φ, scope :: scopes, x =>
    if scope.contains x then W.place φ x
    else (W.parent φ).bind fun outer => placeOf W outer scopes x

/-- A chain of frames and an environment stand for the same scopes. -/
structure Linked (W : World) (φ : Nat) (awaiting : Option String)
    (scopes : List (NameTable Readiness)) (declares : List (List String)) (ρ : Env) : Prop where
  instances : Instances W φ awaiting scopes declares
  names : ∀ x, ρ.find? x = placeOf W φ scopes x

theorem Instance.mono {awaiting : Option String} {scope : NameTable Readiness}
    {names : List String} (h : Extends W W') (hi : Instance W φ awaiting scope names) :
    Instance W' φ awaiting scope names := by
  refine ⟨Nat.lt_of_lt_of_le hi.inside h.size, ?_, ?_, ?_⟩
  · rw [h.declares φ hi.inside, hi.declares]
  · exact fun x hx hne => h.bound φ hi.inside x (hi.bound x hx hne)
  · intro x hx
    obtain ⟨cell, hcell⟩ := Option.isSome_iff_exists.mp (hi.placed x hx)
    rw [h.kept φ hi.inside x cell hcell]
    rfl

theorem Instances.mono (h : Extends W W') : ∀ {φ : Nat} {awaiting : Option String}
    {scopes : List (NameTable Readiness)} {declares : List (List String)},
    Instances W φ awaiting scopes declares → Instances W' φ awaiting scopes declares
  | _, _, [], [], hi => hi
  | φ, _, _ :: _, _ :: _, ⟨hi, outer, hlt, hparent, hrest⟩ =>
    ⟨hi.mono h, outer, hlt, (h.parent φ hi.inside).trans hparent, hrest.mono h⟩

theorem placeOf_mono (h : Extends W W') : ∀ {φ : Nat} {awaiting : Option String}
    {scopes : List (NameTable Readiness)} {declares : List (List String)},
    Instances W φ awaiting scopes declares → ∀ x, placeOf W' φ scopes x = placeOf W φ scopes x
  | _, _, [], [], _, _ => rfl
  | φ, _, scope :: scopes, _ :: _, ⟨hi, outer, _, hparent, hrest⟩, x => by
    unfold placeOf
    by_cases hx : scope.contains x = true
    · obtain ⟨cell, hcell⟩ := Option.isSome_iff_exists.mp (hi.placed x hx)
      rw [if_pos hx, if_pos hx, hcell, h.kept φ hi.inside x cell hcell]
    · rw [if_neg hx, if_neg hx, h.parent φ hi.inside, hparent]
      exact placeOf_mono h hrest x

theorem Linked.mono {awaiting : Option String} {scopes : List (NameTable Readiness)}
    {declares : List (List String)} {ρ : Env} (h : Extends W W')
    (hl : Linked W φ awaiting scopes declares ρ) : Linked W' φ awaiting scopes declares ρ :=
  ⟨hl.instances.mono h, fun x => (hl.names x).trans (placeOf_mono h hl.instances x).symm⟩

/-! ### Values -/

/-- Two functions with the same code, which is code of a program that was run. `around` are the
scopes that its frame and its environment stand for, of those around the code. -/
structure SameCode (W : World) (c : Closure) (c' : Closure Env)
    (around : Context → List (NameTable Readiness) → List (List String) → Prop) : Prop where
  ident : c'.ident = c.ident
  decl : c'.decl = c.decl
  isInit : c'.isInit = c.isInit
  linked : ∃ p ∈ W.texts, ∃ k scopes declares, Visits p.body k (.function c.decl) ∧
    around k scopes declares ∧ Linked W c.env none scopes declares c'.env

/-- Functions that can be called stand for all scopes around their code. One that sets up an object
has the frame of `this` innermost. -/
def FunctionsAlike (W : World) (c : Closure) (c' : Closure Env) : Prop :=
  SameCode W c c' fun k scopes declares => k.scopes = scopes ∧ k.declares = declares ∧
    (c.isInit = true → scopes.head? = some thisScope)

/-- Methods stand for all scopes around their code but that of `this`. -/
def MethodsAlike (W : World) (c : Closure) (c' : Closure Env) : Prop :=
  SameCode W c c' fun k scopes declares =>
    k.scopes = thisScope :: scopes ∧ k.declares = [thisName] :: declares

/-- Tables with the same names, of related values. -/
def TablesAlike {α β : Type} (R : α → β → Prop) (t : NameTable α) (t' : NameTable β) : Prop :=
  ∀ x, Option.Rel R (t.find? x) (t'.find? x)

structure BodiesAlike (W : World) (b : ClassBody) (b' : ClassBody Env) : Prop where
  ident : b'.ident = b.ident
  name : b'.name = b.name
  methods : TablesAlike (MethodsAlike W) b.methods b'.methods

def ClassesAlike (W : World) (c : Class) (c' : Class Env) : Prop :=
  List.Forall₂ (BodiesAlike W) c.chain c'.chain

/-- Values that differ in the environments of functions only. -/
inductive Alike (W : World) : Value → Value Env → Prop
  | nil : Alike W .nil .nil
  | bool (b : Bool) : Alike W (.bool b) (.bool b)
  | number (x : Float) : Alike W (.number x) (.number x)
  | text (s : String) : Alike W (.text s) (.text s)
  | native (n : Native) : Alike W (.native n) (.native n)
  | function {c : Closure} {c' : Closure Env} (h : FunctionsAlike W c c') :
    Alike W (.function c) (.function c')
  | cls {c : Class} {c' : Class Env} (h : ClassesAlike W c c') : Alike W (.cls c) (.cls c')
  | object (ident : Nat) {c : Class} {c' : Class Env} (h : ClassesAlike W c c') :
    Alike W (.object ident c) (.object ident c')

theorem SameCode.mono {c : Closure} {c' : Closure Env}
    {around : Context → List (NameTable Readiness) → List (List String) → Prop} (h : Extends W W')
    (hc : SameCode W c c' around) : SameCode W' c c' around := by
  obtain ⟨p, hp, k, scopes, declares, hv, ha, hl⟩ := hc.linked
  exact ⟨hc.ident, hc.decl, hc.isInit, p, h.texts p hp, k, scopes, declares, hv, ha, hl.mono h⟩

theorem optionRel_mono {α β : Type} {R S : α → β → Prop} (h : ∀ a b, R a b → S a b) {a : Option α}
    {b : Option β} (hr : Option.Rel R a b) : Option.Rel S a b := by
  cases hr with
  | none => exact .none
  | some hr => exact .some (h _ _ hr)

theorem ClassesAlike.mono {c : Class} {c' : Class Env} (h : Extends W W')
    (hc : ClassesAlike W c c') : ClassesAlike W' c c' :=
  List.Forall₂.imp (fun _ _ hb => ⟨hb.ident, hb.name, fun x =>
    optionRel_mono (fun _ _ hm => SameCode.mono h hm) (hb.methods x)⟩) hc

/-- **What is alike stays alike.** -/
theorem Alike.mono {v : Value} {v' : Value Env} (h : Extends W W') (hv : Alike W v v') :
    Alike W' v v' := by
  cases hv with
  | nil => exact .nil
  | bool b => exact .bool b
  | number x => exact .number x
  | text s => exact .text s
  | native n => exact .native n
  | function hc => exact .function (SameCode.mono h hc)
  | cls hc => exact .cls (hc.mono h)
  | object i hc => exact .object i (hc.mono h)

theorem tablesAlike_empty {α β : Type} (R : α → β → Prop) :
    TablesAlike R (NameTable.empty : NameTable α) (NameTable.empty : NameTable β) := fun _ => .none

theorem TablesAlike.put {α β : Type} {R : α → β → Prop} {t : NameTable α} {t' : NameTable β}
    {a : α} {b : β} (h : TablesAlike R t t') (x : String) (hr : R a b) :
    TablesAlike R (t.put x a) (t'.put x b) := by
  intro y
  rw [NameTable.find?_put, NameTable.find?_put]
  by_cases hxy : x = y
  · rw [if_pos hxy, if_pos hxy]
    exact .some hr
  · rw [if_neg hxy, if_neg hxy]
    exact h y

theorem TablesAlike.ofList {α β : Type} {R : α → β → Prop} {entries : List (String × α)}
    {entries' : List (String × β)}
    (h : List.Forall₂ (fun a b => b.1 = a.1 ∧ R a.2 b.2) entries entries') :
    TablesAlike R (.ofList entries) (.ofList entries') := by
  have hfold : ∀ {t : NameTable α} {t' : NameTable β}, TablesAlike R t t' →
      TablesAlike R (entries.foldl (fun t e => t.put e.1 e.2) t)
        (entries'.foldl (fun t e => t.put e.1 e.2) t') := by
    induction h with
    | nil => exact fun ht => ht
    | cons hab _ ih =>
      intro t t' ht
      rw [List.foldl_cons, List.foldl_cons, hab.1]
      exact ih (ht.put _ hab.2)
  exact hfold (tablesAlike_empty R)

/-! ### What alike values have in common -/

section Alike

variable {v w : Value} {v' w' : Value Env} {c : Class} {c' : Class Env}

theorem ClassesAlike.own (h : ClassesAlike W c c') : BodiesAlike W c.own c'.own :=
  (List.forall₂_cons.mp h).1

theorem ClassesAlike.method? (h : ClassesAlike W c c') (x : String) :
    Option.Rel (MethodsAlike W) (c.method? x) (c'.method? x) := by
  have hfind : ∀ {bs : List ClassBody} {bs' : List (ClassBody Env)},
      List.Forall₂ (BodiesAlike W) bs bs' →
      Option.Rel (MethodsAlike W) (bs.findSome? fun b => b.methods.find? x)
        (bs'.findSome? fun b => b.methods.find? x) := by
    intro bs bs' hbs
    induction hbs with
    | nil => exact .none
    | cons hb _ ih =>
      have hm := hb.methods x
      rw [List.findSome?_cons, List.findSome?_cons]
      generalize NameTable.find? _ x = o at hm
      generalize NameTable.find? _ x = o' at hm
      cases hm with
      | none => exact ih
      | some hm => exact .some hm
  exact hfind h

/-- What sets up the objects of a class is code of a program. -/
theorem ClassesAlike.init_alike (h : ClassesAlike W c c') {init : Closure} (hinit : c.init? = some init) :
    ∃ init', MethodsAlike W init init' := by
  have hmethod := h.method? initName
  rw [show c.method? initName = some init from hinit] at hmethod
  generalize c'.method? initName = o at hmethod
  cases hmethod with
  | some halike => exact ⟨_, halike⟩

theorem ClassesAlike.arity (h : ClassesAlike W c c') : c'.arity = c.arity := by
  have hinit := h.method? initName
  unfold Class.arity Class.init?
  generalize c.method? initName = o at hinit
  generalize c'.method? initName = o' at hinit
  cases hinit with
  | none => rfl
  | some hm => exact congrArg (fun d => d.params.length) hm.decl

namespace Alike

theorem kind (h : Alike W v v') : v'.kind = v.kind := by cases h <;> rfl

theorem isTrue (h : Alike W v v') : v'.isTrue = v.isTrue := by cases h <;> rfl

theorem display (h : Alike W v v') : v'.display = v.display := by
  cases h with
  | nil | bool | number | text | native => rfl
  | function hc => rw [Value.display, Value.display, Closure.name, Closure.name, hc.decl]
  | cls hc | object i hc =>
    rw [Value.display, Value.display, Class.name, Class.name, hc.own.name]

theorem arity? (h : Alike W v v') : v'.arity? = v.arity? := by
  cases h with
  | nil | bool | number | text | native | object => rfl
  | function hc => rw [Value.arity?, Value.arity?, Closure.arity, Closure.arity, hc.decl]
  | cls hc => rw [Value.arity?, Value.arity?, hc.arity]

theorem same (h : Alike W v v') (hw : Alike W w w') : v'.same w' = v.same w := by
  cases h with
  | nil | bool | number | text | native | object => cases hw <;> rfl
  | function hc =>
    cases hw with
    | nil | bool | number | text | native | object | cls => rfl
    | function hd => rw [Value.same, Value.same, hc.ident, hd.ident]
  | cls hc =>
    cases hw with
    | nil | bool | number | text | native | object | function => rfl
    | cls hd => rw [Value.same, Value.same, Class.ident, Class.ident, hc.own.ident, Class.ident,
        Class.ident, hd.own.ident]

end Alike

/-- Outcomes of pure operations with alike values, or with the same fault. -/
inductive OutcomesAlike (W : World) : Except Fault Value → Except Fault (Value Env) → Prop
  | ok {v : Value} {v' : Value Env} (h : Alike W v v') : OutcomesAlike W (.ok v) (.ok v')
  | error (fault : Fault) : OutcomesAlike W (.error fault) (.error fault)

theorem literal_alike (W : World) (l : Literal) : Alike W l.value l.value := by
  cases l with
  | nil => exact .nil
  | bool b => exact .bool b
  | number x => exact .number x
  | text s => exact .text s

namespace Alike

theorem unary (h : Alike W v v') (op : UnaryOp) : OutcomesAlike W (op.apply v) (op.apply v') := by
  cases op with
  | not =>
    rw [UnaryOp.apply, UnaryOp.apply, h.isTrue]
    exact .ok (.bool _)
  | negate => cases h <;> first | exact .ok (.number _) | exact .error _

theorem binary (h : Alike W v v') (hw : Alike W w w') (op : BinaryOp) :
    OutcomesAlike W (op.apply v w) (op.apply v' w') := by
  have hsame := h.same hw
  cases op with
  | equal =>
    rw [BinaryOp.apply, BinaryOp.apply, hsame]
    exact .ok (.bool _)
  | notEqual =>
    rw [BinaryOp.apply, BinaryOp.apply, hsame]
    exact .ok (.bool _)
  | add =>
    cases h <;> cases hw <;> first | exact .ok (.number _) | exact .ok (.text _) | exact .error _
  | mul | div | sub =>
    cases h <;> cases hw <;> first | exact .error _ | exact .ok (.number _)
  | less | greater | lessEqual | greaterEqual =>
    cases h <;> cases hw <;> first | exact .error _ | exact .ok (.bool _)

theorem toNumber (h : Alike W v v') : OutcomesAlike W v.toNumber v'.toNumber := by
  cases h with
  | nil | bool | native | function | cls | object => exact .error _
  | number x => exact .ok (.number x)
  | text s =>
    simp only [Value.toNumber]
    cases Decimal.Numeral.read (Text.trim s) with
    | ok x => exact .ok (.number x)
    | error cause => exact .error _

theorem settledBy (h : Alike W v v') (op : LogicalOp) : op.settledBy v' = op.settledBy v := by
  cases op <;> simp only [LogicalOp.settledBy, h.isTrue]

end Alike

end Alike

end Lexical
end ClassScript
