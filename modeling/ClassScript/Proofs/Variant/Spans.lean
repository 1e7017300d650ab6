/-
# Variants with other spans

A variant in which no name is changed is the same tree with other spans (`Like.eq_mapSpans`),
if it is known what becomes of each span. Whether depths are known for more expressions than
those of the tree does not matter to it (`Like.knowing`).
-/
import ClassScript.Proofs.Variant.Values

namespace ClassScript

open Scope Variation Variant

variable {v : Variation} {o : Origin} {M : List Bool} {n n' : Node}

namespace Variation

variable {K : Nat → Prop} {m m' : Mark} {z z' : String}

/-- The variation with depths that are known for more expressions. -/
def knowing (v : Variation) (K : Nat → Prop) : Variation := { v with known := K }

theorem Marked.knowing (h : v.Marked o m m') : (v.knowing K).Marked o m m' := ⟨h.id, h.span⟩

theorem Named.knowing {b : Bool} (h : v.Named o b z z') : (v.knowing K).Named o b z z' :=
  ⟨h.eq, h.free⟩

theorem Refers.knowing (hK : ∀ id, v.known id → K id) (h : v.Refers o M m m' z z') :
    (v.knowing K).Refers o M m m' z z' :=
  ⟨h.toMarked.knowing, hK _ h.known, h.name.knowing⟩

theorem Declares.knowing {b : Bool} {d d' : Declared} (h : v.Declares o b d d') :
    (v.knowing K).Declares o b d d' :=
  ⟨h.name.knowing, h.span⟩

end Variation

/-- **A variant stays one when more depths are known.** -/
theorem Like.knowing {K : Nat → Prop} (hK : ∀ id, v.known id → K id) (h : Like v o M n n') :
    Like (v.knowing K) o M n n' := by
  induction h with
  | literal hm => exact .literal hm.knowing
  | group hm _ ih => exact .group hm.knowing ih
  | «variable» hr => exact .variable (hr.knowing hK)
  | assign hr _ ih => exact .assign (hr.knowing hK) ih
  | unary hm _ ih => exact .unary hm.knowing ih
  | binary hm _ _ ihl ihr => exact .binary hm.knowing ihl ihr
  | logical hm _ _ ihl ihr => exact .logical hm.knowing ihl ihr
  | call hm _ _ ihl ihr => exact .call hm.knowing ihl ihr
  | get hm _ ih => exact .get hm.knowing ih
  | set hm _ _ ihl ihr => exact .set hm.knowing ihl ihr
  | this hm hknown => exact .this hm.knowing (hK _ hknown)
  | super hm hknown => exact .super hm.knowing (hK _ hknown)
  | noExprs => exact .noExprs
  | exprs _ _ ihl ihr => exact .exprs ihl ihr
  | expression hs _ ih => exact .expression hs ih
  | print hs _ ih => exact .print hs ih
  | var hs hz => exact .var hs hz.knowing
  | varInit hs hz _ ih => exact .varInit hs hz.knowing ih
  | block b hs _ ih => exact .block b hs ih
  | branch hs _ _ ihc ihy => exact .branch hs ihc ihy
  | branchElse hs _ _ _ ihc ihy ihn => exact .branchElse hs ihc ihy ihn
  | loop hs _ _ ihc ihb => exact .loop hs ihc ihb
  | function hs hz _ ih => exact .function hs hz.knowing ih
  | «return» hs => exact .return hs
  | returnValue hs _ ih => exact .returnValue hs ih
  | classDecl hs hd hname _ ih => exact .classDecl hs hd.knowing hname ih
  | derived hs hd hname _ _ ihu ihm => exact .derived hs hd.knowing hname ihu ihm
  | noStmts => exact .noStmts
  | stmts _ _ ihl ihr => exact .stmts ihl ihr
  | code b hname hs hparams _ ih =>
    exact .code b hname hs (hparams.imp fun _ _ hd => hd.knowing) ih
  | noMethods => exact .noMethods
  | methods _ _ ihl ihr => exact .methods ihl ihr

/-- **Stores stay akin when more depths are known.** -/
theorem Variant.StoresAkin.knowing {K : Nat → Prop} (hK : ∀ id, v.known id → K id) {W : Frames}
    {s s' : Store} (h : StoresAkin v W s s') : StoresAkin (v.knowing K) W s s' := by
  have hakin : ∀ {x x' : Option Value}, Option.Rel (Akin (Code v W)) x x' →
      Option.Rel (Akin (Code (v.knowing K) W)) x x' :=
    Lexical.optionRel_mono fun _ _ hx => hx.imp fun _ _ _ _ ⟨o, M, hstands, hlike⟩ =>
      ⟨o, M, hstands, hlike.knowing hK⟩
  exact ⟨h.size, h.size', h.parent, h.parent', fun φ hφ z hz => hakin (h.names φ hφ z hz), h.global,
    h.unmarked, h.objects, fun i x => hakin (h.fields i x), h.idents⟩

section

variable {g : Span → Span} {m m' : Mark} {z z' : String}

theorem Variation.Named.same (hv : v.change = none) {b : Bool} (h : v.Named o b z z') : z' = z := by
  rw [h.eq, rename, hv]

theorem Variation.Marked.mapSpan (hg : ∀ s s', v.spans o s s' → s' = g s) (h : v.Marked o m m') :
    m' = m.mapSpan g := by
  obtain ⟨id, span⟩ := m'
  rw [Mark.mapSpan, ← h.id, ← hg _ _ h.span]

theorem Variation.Declares.mapSpan (hv : v.change = none) (hg : ∀ s s', v.spans o s s' → s' = g s)
    {b : Bool} {d d' : Declared} (h : v.Declares o b d d') : d' = d.mapSpan g := by
  obtain ⟨name, span⟩ := d'
  rw [Declared.mapSpan, ← h.name.same hv, ← hg _ _ h.span]

end

/-- **A variant without another name is the tree with other spans.** -/
theorem Like.eq_mapSpans {g : Span → Span} (hv : v.change = none)
    (hg : ∀ s s', v.spans o s s' → s' = g s) (h : Like v o M n n') : n' = n.mapSpans g := by
  induction h with
  | literal hm => rw [hm.mapSpan hg]; rfl
  | group hm _ ih | unary hm _ ih | get hm _ ih =>
    cases ih
    rw [hm.mapSpan hg]
    rfl
  | «variable» hr =>
    rw [hr.toMarked.mapSpan hg, hr.name.same hv]
    rfl
  | assign hr _ ih =>
    cases ih
    rw [hr.toMarked.mapSpan hg, hr.name.same hv]
    rfl
  | binary hm _ _ ihl ihr | logical hm _ _ ihl ihr | call hm _ _ ihl ihr | set hm _ _ ihl ihr =>
    cases ihl
    cases ihr
    rw [hm.mapSpan hg]
    rfl
  | this hm _ | super hm _ =>
    rw [hm.mapSpan hg]
    rfl
  | noExprs | noStmts | noMethods => rfl
  | exprs _ _ ihl ihr | stmts _ _ ihl ihr | methods _ _ ihl ihr =>
    cases ihl
    cases ihr
    rfl
  | expression hs _ ih | print hs _ ih | block _ hs _ ih | returnValue hs _ ih =>
    cases ih
    rw [hg _ _ hs]
    rfl
  | var hs hz =>
    rw [hg _ _ hs, hz.same hv]
    rfl
  | varInit hs hz _ ih =>
    cases ih
    rw [hg _ _ hs, hz.same hv]
    rfl
  | branch hs _ _ ihl ihr | loop hs _ _ ihl ihr =>
    cases ihl
    cases ihr
    rw [hg _ _ hs]
    rfl
  | branchElse hs _ _ _ ihc ihy ihn =>
    cases ihc
    cases ihy
    cases ihn
    rw [hg _ _ hs]
    rfl
  | function hs _ _ ih =>
    cases ih
    rw [hg _ _ hs]
    rfl
  | «return» hs =>
    rw [hg _ _ hs]
    rfl
  | classDecl hs hd _ _ ih =>
    cases ih
    rw [hg _ _ hs, hd.mapSpan hv hg]
    rfl
  | @derived _ _ _ _ _ u u' _ _ hs hd _ _ _ ihu ihm =>
    obtain ⟨m, x⟩ := u
    obtain ⟨m', x'⟩ := u'
    cases ihu
    cases ihm
    rw [hg _ _ hs, hd.mapSpan hv hg]
    rfl
  | @code _ d d' params params' _ _ _ hname hs hparams _ ih =>
    cases ih
    have hparams : params' = params.map (Declared.mapSpan g) :=
      eq_map_of_forall₂ (hparams.imp fun _ _ hd => hd.mapSpan hv hg)
    obtain ⟨x', s'⟩ := d'
    rw [hparams, show s' = g d.span from hg _ _ hs, show x' = d.name from hname]
    rfl

end ClassScript
