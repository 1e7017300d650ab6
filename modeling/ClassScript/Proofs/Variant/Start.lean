/-
# Where a program and its variant start

Before a program runs, the store holds values that earlier programs have left. Their code
is no part of the program, so it is the same for the variant (`visited_like`), and the
frames that they keep are instances of scopes without marks. So the store of a session
that is tracked is akin to itself (`Tracks.storesAkin`).
-/
import ClassScript.Proofs.Session.Tracking
import ClassScript.Proofs.Variant.Runs

namespace ClassScript

open Scope

/-! ### Spans of parts -/

namespace Scope

variable {c c' : Context} {n n' : Node}

/-- The spans of a child are among those of the node. -/
theorem children_spans (h : (c', n') ∈ c.children n) : ∀ s ∈ n'.spans, s ∈ n.spans := by
  intro s hs
  cases n with
  | expr e =>
    cases e <;> simp [Context.children] at h <;> grind [Node.spans, Expr.spans]
  | exprs es =>
    cases es <;> simp [Context.children] at h
    grind [Node.spans, Expr.spansOf]
  | stmt t =>
    cases t with
    | expression | print | block | loop | function =>
      simp [Context.children] at h
      grind [Node.spans, Stmt.spans]
    | var _ _ init =>
      cases init <;> simp [Context.children] at h
      grind [Node.spans, Stmt.spans]
    | «return» _ value =>
      cases value <;> simp [Context.children] at h
      grind [Node.spans, Stmt.spans]
    | branch _ _ _ no =>
      cases no <;> simp [Context.children] at h <;> grind [Node.spans, Stmt.spans]
    | classDecl _ _ parent =>
      cases parent <;> simp [Context.children, NameUse.expr] at h <;>
        grind [Node.spans, Stmt.spans, Expr.spans]
  | stmts ss =>
    cases ss <;> simp [Context.children] at h
    grind [Node.spans, Stmt.spansOf]
  | function d =>
    cases d
    simp [Context.children] at h
    grind [Node.spans, FunctionDecl.spans]
  | methods ds =>
    cases ds <;> simp [Context.children] at h
    grind [Node.spans, FunctionDecl.spansOf]

theorem Comes.spans {x y : Context × Node} (h : Comes x y) : ∀ s ∈ y.2.spans, s ∈ x.2.spans := by
  induction h with
  | refl => exact fun _ hs => hs
  | tail _ hmem ih => exact fun s hs => ih s (children_spans hmem s hs)

end Scope

namespace Variant

open Lexical (World Instances Linked SameCode StoreMatch optionRel_mono)

variable {v : Variation} {ps : List Program} {W : World}

/-! ### Earlier code -/

/-- What the variation has to leave alone: the code of earlier programs. -/
structure Leaves (v : Variation) (ps : List Program) : Prop where
  known : ∀ p ∈ ps, ∀ id ∈ Stmt.idsOf p.body, v.known id
  spans : ∀ p ∈ ps, ∀ s ∈ Stmt.spansOf p.body, v.spans .earlier s s

theorem named_earlier (v : Variation) (z : String) : v.Named .earlier false z z := by
  refine ⟨(rename_unmarked v z).symm, ?_⟩
  rintro (h | h) <;> cases h

/-- **The code of earlier programs is the same for the variant.** -/
theorem visited_like {p : Program} {k : Context} {d : FunctionDecl} {M : List Bool}
    (hleaves : Leaves v ps) (hp : p ∈ ps) (hbuilt : p.Built) (hv : Visits p.body k (.function d))
    (hM : ∀ b ∈ M, b = false) : Like v .earlier M (.function d) (.function d) := by
  have hids := (Comes.ids hv hbuilt.nodup).2
  have hlike := FunctionDecl.like_mapSpans (g := id) (named_earlier v) hM
    (fun id hid => hleaves.known p hp id (hids id hid))
    (fun s hs => hleaves.spans p hp s (Comes.spans hv s hs))
  rwa [FunctionDecl.mapSpans_id] at hlike

/-! ### Earlier values -/

/-- The frames of a world, none of them marked. -/
def Frames.ofWorld (W : World) : Frames := ⟨W.size, W.parent, fun _ => false⟩

theorem stands_of_instances (hglobal : globalFrame < W.size) (hroot : W.parent globalFrame = none) :
    ∀ {φ : Nat} {awaiting : Option String} {scopes : List (NameTable Readiness)}
    {declares : List (List String)}, Instances W φ awaiting scopes declares →
    Stands (.ofWorld W) (scopes.map fun _ => false) φ
  | _, _, [], [], h => by
    obtain rfl : _ = globalFrame := h
    exact .ground hglobal hroot rfl
  | _, _, _ :: _, _ :: _, ⟨hi, outer, _, hparent, hrest⟩ =>
    .inner hi.inside hparent rfl (stands_of_instances hglobal hroot hrest)

section

variable (hleaves : Leaves v W.texts) (hbuilt : ∀ p ∈ W.texts, p.Built)
  (hglobal : globalFrame < W.size) (hroot : W.parent globalFrame = none)

include hleaves hbuilt hglobal hroot

/-- A function whose frame stands for the scopes around its code is akin to itself. -/
theorem closuresAkin_self {c : Closure} {c' : Closure Lexical.Env}
    {around : Context → List (NameTable Readiness) → List (List String) → Prop}
    (h : SameCode W c c' around) (method : Bool) :
    ClosuresAkin (Code v (.ofWorld W)) method c c := by
  obtain ⟨p, hp, k, scopes, declares, hv, -, hl⟩ := h.linked
  refine ⟨rfl, rfl, rfl, .earlier, _, stands_of_instances hglobal hroot hl.instances, ?_⟩
  refine visited_like hleaves hp (hbuilt p hp) hv ?_
  cases method <;> simp

theorem classesAkin_self {c : Class} {c' : Class Lexical.Env} (h : Lexical.ClassesAlike W c c') :
    ClassesAkin (Code v (.ofWorld W)) c c := by
  unfold Lexical.ClassesAlike at h
  unfold ClassesAkin
  generalize c.chain = bs at h
  generalize c'.chain = bs' at h
  induction h with
  | nil => exact .nil
  | @cons b b' _ _ hb _ ih =>
    refine .cons ⟨rfl, rfl, fun x => ?_⟩ ih
    have hx := hb.methods x
    generalize b.methods.find? x = o at hx
    generalize b'.methods.find? x = o' at hx
    cases hx with
    | none => exact .none
    | some hm => exact .some (closuresAkin_self hleaves hbuilt hglobal hroot hm true)

/-- **A value that earlier programs have left is akin to itself.** -/
theorem akin_self {x : Value} {x' : Value Lexical.Env} (h : Lexical.Alike W x x') :
    Akin (Code v (.ofWorld W)) x x := by
  cases h with
  | nil => exact .nil
  | bool b => exact .bool b
  | number y => exact .number y
  | text s => exact .text s
  | native n => exact .native n
  | function hc => exact .function (closuresAkin_self hleaves hbuilt hglobal hroot hc false)
  | cls hc => exact .cls (classesAkin_self hleaves hbuilt hglobal hroot hc)
  | object i hc => exact .object i (classesAkin_self hleaves hbuilt hglobal hroot hc)

theorem optionAkin_self {x : Option Value} {x' : Option (Value Lexical.Env)}
    (h : Option.Rel (Lexical.Alike W) x x') : Option.Rel (Akin (Code v (.ofWorld W))) x x := by
  cases h with
  | none => exact .none
  | some hx => exact .some (akin_self hleaves hbuilt hglobal hroot hx)

end

/-- **The store of a session that is tracked is akin to itself.** -/
theorem storesAkin_self {m : Machine} {σ : Lexical.State} (h : Lexical.Match ps W m σ)
    (hleaves : Leaves v ps) : StoresAkin v (.ofWorld W) m.store m.store := by
  have hs := h.store
  have hself : ∀ {x : Option Value} {x' : Option (Value Lexical.Env)},
      Option.Rel (Lexical.Alike W) x x' → Option.Rel (Akin (Code v (.ofWorld W))) x x :=
    optionAkin_self (h.texts.symm ▸ hleaves) h.built hs.nonempty hs.root
  refine ⟨hs.size, hs.size, hs.parent, hs.parent, fun φ hφ z _ => ?_, hs.nonempty, rfl, rfl,
    fun i x => hself (hs.fields i x), rfl⟩
  rw [show (Frames.ofWorld W).marked φ = false from rfl, rename_unmarked]
  by_cases hglobal : φ = globalFrame
  · subst hglobal
    exact hself (hs.globals z)
  · cases hz : m.store.lookup φ z with
    | none => exact .none
    | some x =>
      -- a name that is bound in a frame has a cell, and the cell holds an alike value
      have hbound : W.bound φ z := (hs.bound φ hφ hglobal z).mpr (by rw [hz]; rfl)
      obtain ⟨cell, hcell⟩ := Option.isSome_iff_exists.mp (hs.placed φ hφ hglobal z hbound)
      exact hz ▸ hself (hs.slot φ z cell hcell).alike

end Variant
end ClassScript
