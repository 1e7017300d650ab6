/-
# Values and stores of a program and its variant

A program and its variant make the same frames, and those that are instances of marked
scopes hold the new name in place of the old one. `Frames` says which frames there are,
and `Stands` that the frames from one outwards have given marks. Values are `Akin` if
they differ in the code of the functions in them at most.

What changes the stores of two runs in the same way keeps them akin: a binding
(`StoresAkin.define`), a new frame (`StoresAkin.enter`), and new identities, objects and
fields.
-/
import ClassScript.Proofs.Lexical.World
import ClassScript.Proofs.Variant.Tree

namespace ClassScript
namespace Variant

open Scope Variation
open Lexical (TablesAlike optionRel_mono)

/-! ### Frames -/

/-- The frames of a run: what surrounds them, and whether they are instances of marked scopes. -/
structure Frames where
  size : Nat
  parent : Nat → Option Nat
  marked : Nat → Bool

/-- All frames of `W` are frames of `W'` too. -/
structure Extends (W W' : Frames) : Prop where
  size : W.size ≤ W'.size
  parent : ∀ φ < W.size, W'.parent φ = W.parent φ
  marked : ∀ φ < W.size, W'.marked φ = W.marked φ

/-- The frames from `φ` outwards have the marks `M`, up to an outermost frame without a mark. -/
inductive Stands (W : Frames) : List Bool → Nat → Prop
  | ground {φ : Nat} (inside : φ < W.size) (parent : W.parent φ = none)
    (unmarked : W.marked φ = false) : Stands W [] φ
  | inner {b : Bool} {M : List Bool} {φ outer : Nat} (inside : φ < W.size)
    (parent : W.parent φ = some outer) (marked : W.marked φ = b) (rest : Stands W M outer) :
    Stands W (b :: M) φ

/-- The frames with one more, inside of the frame `outer`. -/
def Frames.enter (W : Frames) (outer : Nat) (b : Bool) : Frames where
  size := W.size + 1
  parent := fun φ => if φ = W.size then some outer else W.parent φ
  marked := fun φ => if φ = W.size then b else W.marked φ

variable {W W' W'' : Frames} {M : List Bool} {φ outer : Nat} {b : Bool}

theorem Extends.refl (W : Frames) : Extends W W := ⟨Nat.le_refl _, fun _ _ => rfl, fun _ _ => rfl⟩

theorem Extends.trans (h : Extends W W') (h' : Extends W' W'') : Extends W W'' := by
  have hlt : ∀ {φ}, φ < W.size → φ < W'.size := fun hφ => Nat.lt_of_lt_of_le hφ h.size
  refine ⟨Nat.le_trans h.size h'.size, fun φ hφ => ?_, fun φ hφ => ?_⟩
  · rw [h'.parent φ (hlt hφ), h.parent φ hφ]
  · rw [h'.marked φ (hlt hφ), h.marked φ hφ]

theorem Extends.enter (W : Frames) (outer : Nat) (b : Bool) : Extends W (W.enter outer b) :=
  ⟨Nat.le_succ _, fun _ hφ => if_neg (Nat.ne_of_lt hφ), fun _ hφ => if_neg (Nat.ne_of_lt hφ)⟩

namespace Stands

theorem inside (h : Stands W M φ) : φ < W.size := by
  cases h <;> assumption

theorem marked (h : Stands W M φ) : W.marked φ = M.headD false := by
  cases h with
  | ground _ _ unmarked => exact unmarked
  | inner _ _ marked _ => exact marked

/-- What stands for some marks goes on standing for them. -/
theorem mono (hext : Extends W W') (h : Stands W M φ) : Stands W' M φ := by
  induction h with
  | @ground φ inside parent unmarked =>
    exact .ground (Nat.lt_of_lt_of_le inside hext.size) ((hext.parent φ inside).trans parent)
      ((hext.marked φ inside).trans unmarked)
  | @inner b M φ outer inside parent marked _ ih =>
    exact .inner (Nat.lt_of_lt_of_le inside hext.size) ((hext.parent φ inside).trans parent)
      ((hext.marked φ inside).trans marked) ih

/-- The new frame inside of a frame stands for one mark more. -/
theorem enter (h : Stands W M outer) (b : Bool) : Stands (W.enter outer b) (b :: M) W.size :=
  .inner (Nat.lt_succ_self _) (if_pos rfl) (if_pos rfl) (h.mono (.enter W outer b))

/-- **The mark of the frame at a depth is the mark at that depth.** -/
theorem ancestor {s : Store} (hparent : ∀ φ < W.size, s.parent? φ = W.parent φ) :
    ∀ {M : List Bool} {φ d ψ : Nat}, Stands W M φ → s.ancestor d φ = some ψ →
      ψ < W.size ∧ W.marked ψ = (M[d]?).getD false
  | M, φ, 0, ψ, h, hψ => by
    obtain rfl : φ = ψ := Option.some.inj hψ
    refine ⟨h.inside, h.marked.trans ?_⟩
    cases M <;> rfl
  | M, φ, d + 1, ψ, h, hψ => by
    rw [Store.ancestor, hparent φ h.inside] at hψ
    cases h with
    | ground _ parent _ =>
      rw [parent] at hψ
      cases hψ
    | inner _ parent _ rest =>
      rw [parent] at hψ
      exact rest.ancestor hparent hψ

end Stands

/-! ### Values -/

/-- How the code of functions may differ, by whether it is the code of a method that is not bound
to an object, and by the frame of the function. -/
def Coding : Type := Bool → Nat → FunctionDecl → FunctionDecl → Prop

/-- Functions that differ in their code at most. -/
structure ClosuresAkin (D : Coding) (method : Bool) (c c' : Closure) : Prop where
  ident : c'.ident = c.ident
  env : c'.env = c.env
  isInit : c'.isInit = c.isInit
  code : D method c.env c.decl c'.decl

structure BodiesAkin (D : Coding) (b b' : ClassBody) : Prop where
  ident : b'.ident = b.ident
  name : b'.name = b.name
  methods : TablesAlike (ClosuresAkin D true) b.methods b'.methods

def ClassesAkin (D : Coding) (c c' : Class) : Prop := List.Forall₂ (BodiesAkin D) c.chain c'.chain

/-- Values that differ in the code of functions at most. -/
inductive Akin (D : Coding) : Value → Value → Prop
  | nil : Akin D .nil .nil
  | bool (b : Bool) : Akin D (.bool b) (.bool b)
  | number (x : Float) : Akin D (.number x) (.number x)
  | text (s : String) : Akin D (.text s) (.text s)
  | native (n : Native) : Akin D (.native n) (.native n)
  | function {c c' : Closure} (h : ClosuresAkin D false c c') : Akin D (.function c) (.function c')
  | cls {c c' : Class} (h : ClassesAkin D c c') : Akin D (.cls c) (.cls c')
  | object (ident : Nat) {c c' : Class} (h : ClassesAkin D c c') :
    Akin D (.object ident c) (.object ident c')

section

variable {D D' : Coding} {c c' : Class} {v w v' w' : Value}

theorem ClosuresAkin.imp (h : ∀ method env d d', D method env d d' → D' method env d d')
    {method : Bool} {c c' : Closure} (hc : ClosuresAkin D method c c') :
    ClosuresAkin D' method c c' :=
  ⟨hc.ident, hc.env, hc.isInit, h _ _ _ _ hc.code⟩

theorem ClassesAkin.imp (h : ∀ method env d d', D method env d d' → D' method env d d')
    (hc : ClassesAkin D c c') : ClassesAkin D' c c' :=
  List.Forall₂.imp (fun _ _ hb => ⟨hb.ident, hb.name, fun x =>
    optionRel_mono (fun _ _ hm => hm.imp h) (hb.methods x)⟩) hc

/-- **What is akin stays so when more differences are allowed.** -/
theorem Akin.imp (h : ∀ method env d d', D method env d d' → D' method env d d')
    (hv : Akin D v v') : Akin D' v v' := by
  cases hv with
  | nil => exact .nil
  | bool b => exact .bool b
  | number x => exact .number x
  | text s => exact .text s
  | native n => exact .native n
  | function hc => exact .function (hc.imp h)
  | cls hc => exact .cls (hc.imp h)
  | object i hc => exact .object i (hc.imp h)

theorem ClassesAkin.own (h : ClassesAkin D c c') : BodiesAkin D c.own c'.own :=
  (List.forall₂_cons.mp h).1

theorem ClassesAkin.method? (h : ClassesAkin D c c') (x : String) :
    Option.Rel (ClosuresAkin D true) (c.method? x) (c'.method? x) := by
  have hfind : ∀ {bs bs' : List ClassBody}, List.Forall₂ (BodiesAkin D) bs bs' →
      Option.Rel (ClosuresAkin D true) (bs.findSome? fun b => b.methods.find? x)
        (bs'.findSome? fun b => b.methods.find? x) := by
    intro bs bs' hbs
    induction hbs with
    | nil => exact .none
    | cons hb _ ih =>
      have hm := hb.methods x
      rw [List.findSome?_cons, List.findSome?_cons]
      generalize NameTable.find? _ x = o at hm
      generalize NameTable.find? _ x = o' at hm
      cases hm with
      | none => exact ih
      | some hm => exact .some hm
  exact hfind h

/-- The code of functions has the name and the number of parameters that it had. -/
def Coding.Outward (D : Coding) : Prop :=
  ∀ method env d d', D method env d d' → d'.name = d.name ∧ d'.params.length = d.params.length

theorem ClassesAkin.arity (hD : D.Outward) (h : ClassesAkin D c c') : c'.arity = c.arity := by
  have hinit := h.method? initName
  unfold Class.arity Class.init?
  generalize c.method? initName = o at hinit
  generalize c'.method? initName = o' at hinit
  cases hinit with
  | none => rfl
  | some hm => exact (hD _ _ _ _ hm.code).2

/-- Outcomes of pure operations with akin values, or with the same fault. -/
inductive OutcomesAkin (D : Coding) : Except Fault Value → Except Fault Value → Prop
  | ok {v v' : Value} (h : Akin D v v') : OutcomesAkin D (.ok v) (.ok v')
  | error (fault : Fault) : OutcomesAkin D (.error fault) (.error fault)

theorem literal_akin (D : Coding) (l : Literal) : Akin D l.value l.value := by
  cases l with
  | nil => exact .nil
  | bool b => exact .bool b
  | number x => exact .number x
  | text s => exact .text s

namespace Akin

theorem kind (h : Akin D v v') : v'.kind = v.kind := by cases h <;> rfl

theorem isTrue (h : Akin D v v') : v'.isTrue = v.isTrue := by cases h <;> rfl

theorem display (hD : D.Outward) (h : Akin D v v') : v'.display = v.display := by
  cases h with
  | nil | bool | number | text | native => rfl
  | function hc =>
    rw [Value.display, Value.display, Closure.name, Closure.name, (hD _ _ _ _ hc.code).1]
  | cls hc | object i hc =>
    rw [Value.display, Value.display, Class.name, Class.name, hc.own.name]

theorem arity? (hD : D.Outward) (h : Akin D v v') : v'.arity? = v.arity? := by
  cases h with
  | nil | bool | number | text | native | object => rfl
  | function hc =>
    rw [Value.arity?, Value.arity?, Closure.arity, Closure.arity, (hD _ _ _ _ hc.code).2]
  | cls hc => rw [Value.arity?, Value.arity?, hc.arity hD]

theorem same (h : Akin D v v') (hw : Akin D w w') : v'.same w' = v.same w := by
  cases h with
  | nil | bool | number | text | native | object => cases hw <;> rfl
  | function hc =>
    cases hw with
    | nil | bool | number | text | native | object | cls => rfl
    | function hd => rw [Value.same, Value.same, hc.ident, hd.ident]
  | cls hc =>
    cases hw with
    | nil | bool | number | text | native | object | function => rfl
    | cls hd => rw [Value.same, Value.same, Class.ident, Class.ident, hc.own.ident, Class.ident,
        Class.ident, hd.own.ident]

theorem unary (h : Akin D v v') (op : UnaryOp) : OutcomesAkin D (op.apply v) (op.apply v') := by
  cases op with
  | not =>
    rw [UnaryOp.apply, UnaryOp.apply, h.isTrue]
    exact .ok (.bool _)
  | negate => cases h <;> first | exact .ok (.number _) | exact .error _

theorem binary (h : Akin D v v') (hw : Akin D w w') (op : BinaryOp) :
    OutcomesAkin D (op.apply v w) (op.apply v' w') := by
  have hsame := h.same hw
  cases op with
  | equal | notEqual =>
    rw [BinaryOp.apply, BinaryOp.apply, hsame]
    exact .ok (.bool _)
  | add =>
    cases h <;> cases hw <;> first | exact .ok (.number _) | exact .ok (.text _) | exact .error _
  | mul | div | sub =>
    cases h <;> cases hw <;> first | exact .error _ | exact .ok (.number _)
  | less | greater | lessEqual | greaterEqual =>
    cases h <;> cases hw <;> first | exact .error _ | exact .ok (.bool _)

theorem toNumber (h : Akin D v v') : OutcomesAkin D v.toNumber v'.toNumber := by
  cases h with
  | nil | bool | native | function | cls | object => exact .error _
  | number x => exact .ok (.number x)
  | text s =>
    simp only [Value.toNumber]
    cases Decimal.Numeral.read (Text.trim s) with
    | ok x => exact .ok (.number x)
    | error cause => exact .error _

theorem settledBy (h : Akin D v v') (op : LogicalOp) : op.settledBy v' = op.settledBy v := by
  cases op <;> simp only [LogicalOp.settledBy, h.isTrue]

end Akin

end

/-! ### Names -/

variable {v : Variation}

theorem rename_unmarked (v : Variation) (z : String) : v.rename false z = z := by
  unfold rename
  cases v.change with
  | none => rfl
  | some p => simp

/-- Names that are not the new one stay different. -/
theorem rename_inj {z w : String} (hz : b = true → v.Free z) (hw : b = true → v.Free w)
    (h : v.rename b z = v.rename b w) : z = w := by
  unfold rename at h
  cases hc : v.change with
  | none =>
    rw [hc] at h
    exact h
  | some p =>
    obtain ⟨x, y⟩ := p
    rw [hc] at h
    cases b with
    | false => simpa using h
    | true =>
      have hz := hz rfl x y hc
      have hw := hw rfl x y hc
      by_cases hzx : z = x <;> by_cases hwx : w = x <;> simp_all

/-- Names that are no names of variables stay as they are, and the new name is none of them. -/
theorem rename_keyword {z : String} (hz : ¬ ProperName z) (b : Bool) :
    v.rename b z = z ∧ v.Free z := by
  refine ⟨?_, fun x y hc hzy => hz (hzy ▸ (v.proper x y hc).2)⟩
  unfold rename
  cases hc : v.change with
  | none => rfl
  | some p =>
    obtain ⟨x, y⟩ := p
    have hne : z ≠ x := fun hzx => hz (hzx ▸ (v.proper x y hc).1)
    simp [hne]

/-- Names that are no names of variables are what they were, in any scope. -/
theorem named_keyword {o : Origin} {z : String} (hz : ¬ ProperName z) : v.Named o b z z :=
  ⟨(rename_keyword hz b).1.symm, fun _ => (rename_keyword hz b).2⟩

theorem this_not_proper : ¬ ProperName thisName := fun h => h.1 rfl

theorem super_not_proper : ¬ ProperName superName := fun h => h.2 rfl

/-- Tables of related values, with the new name in place of the old one in the second. -/
def TablesAkin {α : Type} (v : Variation) (b : Bool) (R : α → α → Prop) (t t' : NameTable α) : Prop :=
  ∀ z, (b = true → v.Free z) → Option.Rel R (t.find? z) (t'.find? (v.rename b z))

section

variable {α : Type} {R : α → α → Prop} {t t' : NameTable α}

theorem TablesAkin.empty (v : Variation) (b : Bool) (R : α → α → Prop) :
    TablesAkin v b R .empty .empty := fun _ _ => .none

theorem TablesAkin.put (h : TablesAkin v b R t t') {z : String} (hz : b = true → v.Free z) {a a' : α}
    (ha : R a a') : TablesAkin v b R (t.put z a) (t'.put (v.rename b z) a') := by
  intro w hw
  rw [NameTable.find?_put, NameTable.find?_put]
  by_cases hzw : z = w
  · rw [if_pos hzw, if_pos (congrArg _ hzw)]
    exact .some ha
  · rw [if_neg hzw, if_neg fun heq => hzw (rename_inj hz hw heq)]
    exact h w hw

theorem TablesAkin.ofList {entries entries' : List (String × α)}
    (h : List.Forall₂ (fun a a' => a'.1 = v.rename b a.1 ∧ (b = true → v.Free a.1) ∧ R a.2 a'.2)
      entries entries') : TablesAkin v b R (.ofList entries) (.ofList entries') := by
  have hfold : ∀ {t t' : NameTable α}, TablesAkin v b R t t' →
      TablesAkin v b R (entries.foldl (fun t e => t.put e.1 e.2) t)
        (entries'.foldl (fun t e => t.put e.1 e.2) t') := by
    induction h with
    | nil => exact fun ht => ht
    | cons ha _ ih =>
      intro t t' ht
      rw [List.foldl_cons, List.foldl_cons, ha.1]
      exact ih (ht.put ha.2.1 ha.2.2)
  exact hfold (.empty v b R)

/-- A table of one name, which is not a name of a variable. -/
theorem TablesAkin.single {z : String} (hz : ¬ ProperName z) {a a' : α} (ha : R a a') :
    TablesAkin v b R (NameTable.empty.put z a) (NameTable.empty.put z a') := by
  have h := (TablesAkin.empty v b R).put (fun _ => (rename_keyword hz b).2) ha
  rwa [(rename_keyword hz b).1] at h

end

/-! ### Stores -/

/-- The code of functions whose frames stand for the marks that their code is inside of. A method
is inside of one scope more, which is that of `this`. -/
def Code (v : Variation) (W : Frames) : Coding := fun method env d d' =>
  ∃ o M, Stands W M env ∧ Like v o (if method then false :: M else M) (.function d) (.function d')

theorem Code.mono (hext : Extends W W') (method : Bool) (env : Nat) (d d' : FunctionDecl)
    (h : Code v W method env d d') : Code v W' method env d d' := by
  obtain ⟨o, M, hstands, hlike⟩ := h
  exact ⟨o, M, hstands.mono hext, hlike⟩

theorem Code.outward (v : Variation) (W : Frames) : (Code v W).Outward := by
  rintro method env d d' ⟨o, M, -, hlike⟩
  cases hlike with
  | code b hname _ hparams _ => exact ⟨hname, hparams.length_eq.symm⟩

theorem Akin.mono (hext : Extends W W') {x x' : Value} (h : Akin (Code v W) x x') :
    Akin (Code v W') x x' :=
  h.imp (Code.mono hext)

structure StoresAkin (v : Variation) (W : Frames) (s s' : Store) : Prop where
  size : s.frames.size = W.size
  size' : s'.frames.size = W.size
  parent : ∀ φ < W.size, s.parent? φ = W.parent φ
  parent' : ∀ φ < W.size, s'.parent? φ = W.parent φ
  names : ∀ φ < W.size, ∀ z, (W.marked φ = true → v.Free z) →
    Option.Rel (Akin (Code v W)) (s.lookup φ z) (s'.lookup φ (v.rename (W.marked φ) z))
  global : globalFrame < W.size
  unmarked : W.marked globalFrame = false
  objects : s'.objects.size = s.objects.size
  fields : ∀ i x, Option.Rel (Akin (Code v W)) (s.field? i x) (s'.field? i x)
  idents : s'.idents = s.idents

namespace StoresAkin

variable {s s' : Store}

/-- **A binding of a name on both sides.** -/
theorem define (h : StoresAkin v W s s') (hφ : φ < W.size) {z z' : String}
    (heq : z' = v.rename (W.marked φ) z) (hz : W.marked φ = true → v.Free z) {x x' : Value}
    (hx : Akin (Code v W) x x') : StoresAkin v W (s.define φ z x) (s'.define φ z' x') := by
  subst heq
  refine ⟨by rw [Store.size_define, h.size], by rw [Store.size_define, h.size'], fun ψ hψ => ?_,
    fun ψ hψ => ?_, fun ψ hψ w hw => ?_, h.global, h.unmarked, h.objects, h.fields, h.idents⟩
  · rw [Store.parent?_define, h.parent ψ hψ]
  · rw [Store.parent?_define, h.parent' ψ hψ]
  · rw [Store.lookup_define s (h.size.symm ▸ hφ), Store.lookup_define s' (h.size'.symm ▸ hφ)]
    by_cases hφψ : φ = ψ
    · subst hφψ
      by_cases hzw : z = w
      · rw [if_pos ⟨rfl, hzw⟩, if_pos ⟨rfl, congrArg _ hzw⟩]
        exact .some hx
      · rw [if_neg fun hh => hzw hh.2, if_neg fun hh => hzw (rename_inj hz hw hh.2)]
        exact h.names φ hψ w hw
    · rw [if_neg fun hh => hφψ hh.1, if_neg fun hh => hφψ hh.1]
      exact h.names ψ hψ w hw

/-- **A new frame on both sides.** -/
theorem enter (h : StoresAkin v W s s') (outer : Nat) {t t' : NameTable Value}
    (ht : TablesAkin v b (Akin (Code v W)) t t') :
    StoresAkin v (W.enter outer b) (s.newFrame (some outer) t).2 (s'.newFrame (some outer) t').2 := by
  have hext := Extends.enter W outer b
  have hglobal : globalFrame ≠ W.size := Nat.ne_of_lt h.global
  have hold : ∀ {ψ}, ψ < W.size + 1 → ψ ≠ W.size → ψ < W.size := fun hlt hne => by omega
  refine ⟨?_, ?_, fun ψ hψ => ?_, fun ψ hψ => ?_, fun ψ hψ w hw => ?_, Nat.lt_succ_of_lt h.global,
    (if_neg hglobal).trans h.unmarked, h.objects,
    fun i x => optionRel_mono (fun _ _ => Akin.mono hext) (h.fields i x), h.idents⟩
  · simp [Store.newFrame, Frames.enter, h.size]
  · simp [Store.newFrame, Frames.enter, h.size']
  · rw [Store.parent?_newFrame, h.size]
    by_cases hne : ψ = W.size
    · exact (if_pos hne).trans (if_pos hne).symm
    · rw [if_neg hne, h.parent ψ (hold hψ hne)]
      exact (if_neg hne).symm
  · rw [Store.parent?_newFrame, h.size']
    by_cases hne : ψ = W.size
    · exact (if_pos hne).trans (if_pos hne).symm
    · rw [if_neg hne, h.parent' ψ (hold hψ hne)]
      exact (if_neg hne).symm
  · rw [Store.lookup_newFrame, Store.lookup_newFrame, h.size, h.size']
    refine optionRel_mono (fun _ _ => Akin.mono hext) ?_
    by_cases hne : ψ = W.size
    · have hmark : (W.enter outer b).marked ψ = b := if_pos hne
      rw [if_pos hne, if_pos hne, hmark]
      rw [hmark] at hw
      exact ht w hw
    · have hmark : (W.enter outer b).marked ψ = W.marked ψ := if_neg hne
      rw [if_neg hne, if_neg hne, hmark]
      rw [hmark] at hw
      exact h.names ψ (hold hψ hne) w hw

theorem ident (h : StoresAkin v W s s') : StoresAkin v W s.newIdent.2 s'.newIdent.2 :=
  ⟨h.size, h.size', h.parent, h.parent', h.names, h.global, h.unmarked, h.objects, h.fields,
    congrArg (· + 1) h.idents⟩

theorem object (h : StoresAkin v W s s') : StoresAkin v W s.newObject.2 s'.newObject.2 := by
  refine ⟨h.size, h.size', h.parent, h.parent', h.names, h.global, h.unmarked, ?_, fun i x => ?_,
    h.idents⟩
  · simp [Store.newObject, h.objects]
  · have hf := h.fields i x
    simp only [Store.field?, Store.newObject, Array.getElem?_push, h.objects] at hf ⊢
    by_cases hi : i = s.objects.size
    · rw [if_pos hi, if_pos hi]
      exact .none
    · rw [if_neg hi, if_neg hi]
      exact hf

theorem field (h : StoresAkin v W s s') (i : Nat) (x : String) {a a' : Value}
    (ha : Akin (Code v W) a a') : StoresAkin v W (s.setField i x a) (s'.setField i x a') := by
  refine ⟨h.size, h.size', h.parent, h.parent', h.names, h.global, h.unmarked, ?_, fun j y => ?_,
    h.idents⟩
  · simp [Store.setField, h.objects]
  · have hf := h.fields j y
    simp only [Store.field?, Store.setField, Array.getElem?_modify] at hf ⊢
    by_cases hij : i = j
    · subst hij
      rw [if_pos rfl, if_pos rfl]
      by_cases hi : i < s.objects.size
      · have hi' : i < s'.objects.size := h.objects.symm ▸ hi
        simp only [Array.getElem?_eq_getElem hi, Array.getElem?_eq_getElem hi', Option.map_some,
          NameTable.find?_put] at hf ⊢
        by_cases hxy : x = y
        · rw [if_pos hxy, if_pos hxy]
          exact .some ha
        · rw [if_neg hxy, if_neg hxy]
          exact hf
      · have hi' : ¬ i < s'.objects.size := h.objects.symm ▸ hi
        simp only [Array.getElem?_eq_none (Nat.le_of_not_lt hi),
          Array.getElem?_eq_none (Nat.le_of_not_lt hi'), Option.map_none]
        exact .none
    · rw [if_neg hij, if_neg hij]
      exact hf

/-- **A method is bound on both sides,** in a new frame. -/
theorem bind (h : StoresAkin v W s s') {c c' : Closure} (hc : ClosuresAkin (Code v W) true c c')
    {x x' : Value} (hx : Akin (Code v W) x x') :
    ∃ W', Extends W W' ∧ StoresAkin v W' (s.bind c x).2 (s'.bind c' x').2 ∧
      ClosuresAkin (Code v W') false (s.bind c x).1 (s'.bind c' x').1 := by
  obtain ⟨o, M, hstands, hlike⟩ := hc.code
  have hs := (h.enter (b := false) c.env (.single this_not_proper hx)).ident
  refine ⟨_, .enter W c.env false, ?_, ?_⟩
  · simp only [Store.bind, hc.env]
    exact hs
  · refine ⟨h.idents, h.size'.trans h.size.symm, hc.isInit, o, false :: M, ?_, hlike⟩
    show Stands _ _ s.frames.size
    rw [h.size]
    exact hstands.enter false

/-! ### Look-ups -/

/-- The frames around a frame are the same on both sides. -/
theorem ancestor (h : StoresAkin v W s s') : ∀ {M : List Bool} {φ : Nat} (d : Nat), Stands W M φ →
    s'.ancestor d φ = s.ancestor d φ
  | _, _, 0, _ => rfl
  | M, φ, d + 1, hstands => by
    rw [Store.ancestor, Store.ancestor, h.parent φ hstands.inside, h.parent' φ hstands.inside]
    cases hstands with
    | ground _ parent _ => rw [parent]
    | inner _ parent _ rest =>
      rw [parent]
      exact h.ancestor d rest

/-- Global names keep their names. -/
theorem lookup_global (h : StoresAkin v W s s') (z : String) :
    Option.Rel (Akin (Code v W)) (s.lookup globalFrame z) (s'.lookup globalFrame z) := by
  have hz := h.names globalFrame h.global z (by rw [h.unmarked]; simp)
  rwa [h.unmarked, rename_unmarked] at hz

end StoresAkin

end Variant
end ClassScript
