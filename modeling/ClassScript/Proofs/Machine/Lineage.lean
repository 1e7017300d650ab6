/-
# Functions and the classes that their code belongs to

Code belongs to the innermost class declaration with a superclass around it, if there is
one. The frame that a function stands in leads to a `super` that was made when that
declaration was executed: the function is `AtHome`. A store all of whose functions are at
home stays so, whatever frames are made and whatever names and fields are set
(`Store.AtHome.define` and its siblings).
-/
import ClassScript.Proofs.Machine.Frames
import ClassScript.Proofs.Machine.Trace

namespace ClassScript

/-! ### Code of a class -/

mutual

/-- The identities of the expressions of a statement, but for those in methods of classes that have
a superclass of their own. -/
def Stmt.homeIds : Stmt → List Nat
  | .expression _ e | .print _ e => e.ids
  | .var _ _ init => Expr.optionalIds init
  | .block _ body => Stmt.homeIdsOf body
  | .branch _ c yes no => c.ids ++ yes.homeIds ++ Stmt.optionalHomeIds no
  | .loop _ c body => c.ids ++ body.homeIds
  | .function _ d => d.homeIds
  | .return _ value => Expr.optionalIds value
  | .classDecl _ _ none methods => FunctionDecl.homeIdsOf methods
  | .classDecl _ _ (some parent) _ => [parent.mark.id]

def Stmt.homeIdsOf : List Stmt → List Nat
  | [] => []
  | s :: ss => s.homeIds ++ Stmt.homeIdsOf ss

def Stmt.optionalHomeIds : Option Stmt → List Nat
  | none => []
  | some s => s.homeIds

def FunctionDecl.homeIds : FunctionDecl → List Nat
  | .mk _ _ body => Stmt.homeIdsOf body

/-- The identities of the expressions of methods, but for those in methods of classes inside of them
that have a superclass of their own. -/
def FunctionDecl.homeIdsOf : List FunctionDecl → List Nat
  | [] => []
  | d :: ds => d.homeIds ++ FunctionDecl.homeIdsOf ds

end

theorem FunctionDecl.homeIds_eq (d : FunctionDecl) : d.homeIds = Stmt.homeIdsOf d.body := by
  cases d
  rfl

/-- The expressions `ids` are among those of the function that is running. -/
def Covers (within : Option Closure) (ids : List Nat) : Prop := ∀ k ∈ within, ids ⊆ k.decl.homeIds

theorem Covers.part {within : Option Closure} {ids ids' : List Nat} (h : Covers within ids)
    (hids : ids' ⊆ ids) : Covers within ids' := fun k hk =>
  List.Subset.trans hids (h k hk)

/-! ### Functions at home -/

/-- From the frame `φ` the expressions `ids` find the `super` of the class declaration that they
belong to, if there is a local one at all. -/
def Home (es : List Event) (s : Store) (φ : Nat) (ids : List Nat) : Prop :=
  ∃ target, s.Leads φ target ∧ ∀ χ ∈ target, ∃ parent methods,
    (∃ e ∈ es, e.happening = .derives χ parent methods) ∧ ids ⊆ FunctionDecl.homeIdsOf methods

def Closure.AtHome (es : List Event) (s : Store) (k : Closure) : Prop :=
  Home es s k.env k.decl.homeIds

def Class.AtHome (es : List Event) (s : Store) (c : Class) : Prop :=
  ∀ b ∈ c.chain, ∀ x k, b.methods.find? x = some k → k.AtHome es s

/-- All functions in the value are at home. -/
def Value.AtHome (es : List Event) (s : Store) : Value → Prop
  | .function k => k.AtHome es s
  | .cls c => c.AtHome es s
  | .object _ c => c.AtHome es s
  | _ => True

/-- All functions in the store are at home. -/
structure Store.AtHome (es : List Event) (s : Store) : Prop where
  names : ∀ φ x v, s.lookup φ x = some v → v.AtHome es s
  fields : ∀ i x v, s.field? i x = some v → v.AtHome es s

variable {es es' : List Event} {s s' : Store} {φ : Nat} {ids : List Nat} {v : Value} {x : String}

namespace Home

theorem mono (h : Home es s φ ids) (hes : es ⊆ es') (hl : s.Later s') : Home es' s' φ ids := by
  obtain ⟨target, hleads, htarget⟩ := h
  refine ⟨target, hl.leads hleads, fun χ hχ => ?_⟩
  obtain ⟨parent, methods, ⟨e, he, hderives⟩, hids⟩ := htarget χ hχ
  exact ⟨parent, methods, ⟨e, hes he, hderives⟩, hids⟩

theorem part {ids' : List Nat} (h : Home es s φ ids) (hids : ids' ⊆ ids) : Home es s φ ids' := by
  obtain ⟨target, hleads, htarget⟩ := h
  refine ⟨target, hleads, fun χ hχ => ?_⟩
  obtain ⟨parent, methods, hderives, hall⟩ := htarget χ hχ
  exact ⟨parent, methods, hderives, List.Subset.trans hids hall⟩

/-- A frame without `super` is as good as the one around it. -/
theorem out {outer : Nat} (h : Home es s outer ids) (inner : φ ≠ globalFrame)
    (free : s.lookup φ superName = none) (parent : s.parent? φ = some outer) : Home es s φ ids := by
  obtain ⟨target, hleads, htarget⟩ := h
  exact ⟨target, .out inner free parent hleads, htarget⟩

/-- **Running code is at home** if its function is. -/
theorem within {within : Option Closure} (hw : s.Within within φ)
    (hk : ∀ k ∈ within, k.AtHome es s) (hids : Covers within ids) : Home es s φ ids := by
  cases within with
  | none => exact ⟨none, hw.leads .global, by simp⟩
  | some k =>
    obtain ⟨target, hleads, htarget⟩ := (hk k rfl).part (hids k rfl)
    exact ⟨target, hw.leads hleads, htarget⟩

end Home

theorem Closure.AtHome.mono {k : Closure} (h : k.AtHome es s) (hes : es ⊆ es') (hl : s.Later s') :
    k.AtHome es' s' := Home.mono h hes hl

namespace Class.AtHome

variable {c : Class}

theorem mono (h : c.AtHome es s) (hes : es ⊆ es') (hl : s.Later s') : c.AtHome es' s' :=
  fun b hb x k hk => (h b hb x k hk).mono hes hl

theorem method? {k : Closure} (h : c.AtHome es s) (hk : c.method? x = some k) : k.AtHome es s := by
  obtain ⟨b, hb, hfind⟩ := List.exists_of_findSome?_eq_some hk
  exact h b hb x k hfind

end Class.AtHome

theorem Value.AtHome.mono (h : v.AtHome es s) (hes : es ⊆ es') (hl : s.Later s') :
    v.AtHome es' s' := by
  cases v with
  | function k => exact Closure.AtHome.mono h hes hl
  | cls c => exact Class.AtHome.mono h hes hl
  | object i c => exact Class.AtHome.mono h hes hl
  | nil | bool | number | text | native => trivial

/-! ### Changes of the store -/

namespace Store

theorem field?_setField {i j : Nat} {y : String} {w : Value}
    (h : (s.setField i x v).field? j y = some w) : s.field? j y = some w ∨ w = v := by
  unfold field? setField at h
  simp only [Array.getElem?_modify] at h
  unfold field?
  by_cases hij : i = j
  · subst hij
    cases hf : s.objects[i]? with
    | none => simp [hf] at h
    | some fields =>
      simp only [hf, if_true, Option.map_some, NameTable.find?_put] at h
      by_cases hxy : x = y
      · rw [if_pos hxy] at h
        exact .inr (Option.some.inj h).symm
      · rw [if_neg hxy] at h
        exact .inl h
  · rw [if_neg hij] at h
    exact .inl h

theorem field?_newObject {j : Nat} {y : String} {w : Value} (h : s.newObject.2.field? j y = some w) :
    s.field? j y = some w := by
  unfold field? newObject at h
  simp only [Array.getElem?_push] at h
  by_cases hj : j = s.objects.size
  · rw [if_pos hj] at h
    cases h
  · rwa [if_neg hj] at h

namespace AtHome

/-- **Old values stay at home,** so only new ones count. -/
theorem step (h : s.AtHome es) (hes : es ⊆ es') (hl : s.Later s')
    (hnames : ∀ φ x v, s'.lookup φ x = some v → s.lookup φ x = some v ∨ v.AtHome es' s')
    (hfields : ∀ i x v, s'.field? i x = some v → s.field? i x = some v ∨ v.AtHome es' s') :
    s'.AtHome es' := by
  refine ⟨fun φ x v hv => ?_, fun i x v hv => ?_⟩
  · rcases hnames φ x v hv with hold | hnew
    · exact (h.names φ x v hold).mono hes hl
    · exact hnew
  · rcases hfields i x v hv with hold | hnew
    · exact (h.fields i x v hold).mono hes hl
    · exact hnew

/-- More events take nothing away. -/
theorem noted (h : s.AtHome es) (es₁ : List Event) : s.AtHome (es ++ es₁) :=
  h.step (List.subset_append_left _ _) (.refl _) (fun _ _ _ hv => .inl hv) fun _ _ _ hv => .inl hv

theorem define (h : s.AtHome es) (hφ : φ < s.frames.size) (hl : s.Later (s.define φ x v))
    (hv : v.AtHome es s) : (s.define φ x v).AtHome es := by
  refine h.step (List.Subset.refl _) hl (fun ψ y w hw => ?_) fun i y w hw => .inl hw
  rw [s.lookup_define hφ] at hw
  by_cases hsame : φ = ψ ∧ x = y
  · rw [if_pos hsame] at hw
    cases hw
    exact .inr (hv.mono (List.Subset.refl _) hl)
  · rw [if_neg hsame] at hw
    exact .inl hw

theorem newFrame {names : NameTable Value} (h : s.AtHome es) (outer : Nat)
    (hnames : ∀ x v, names.find? x = some v → v.AtHome es s) :
    (s.newFrame (some outer) names).2.AtHome es := by
  have hl := Later.newFrame s (some outer) names
  refine h.step (List.Subset.refl _) hl (fun ψ y w hw => ?_) fun i y w hw => .inl hw
  rw [s.lookup_newFrame] at hw
  by_cases hψ : ψ = s.frames.size
  · rw [if_pos hψ] at hw
    exact .inr ((hnames y w hw).mono (List.Subset.refl _) hl)
  · rw [if_neg hψ] at hw
    exact .inl hw

/-- A new frame that holds one name. -/
theorem newFrame_single (h : s.AtHome es) (outer : Nat) (x : String) (hv : v.AtHome es s) :
    (s.newFrame (some outer) (NameTable.empty.put x v)).2.AtHome es := by
  refine h.newFrame outer fun y w hw => ?_
  rw [NameTable.find?_put] at hw
  by_cases hxy : x = y
  · rw [if_pos hxy] at hw
    cases hw
    exact hv
  · rw [if_neg hxy] at hw
    cases hw

theorem setField (h : s.AtHome es) (i : Nat) (hv : v.AtHome es s) : (s.setField i x v).AtHome es := by
  have hl : s.Later (s.setField i x v) := (Moves.of_frames (by rfl)).toLater
  refine h.step (List.Subset.refl _) hl (fun ψ y w hw => .inl hw) fun j y w hw => ?_
  rcases field?_setField hw with hold | rfl
  · exact .inl hold
  · exact .inr (hv.mono (List.Subset.refl _) hl)

/-- **A method that is bound is at home,** for the frame of `this` is just inside of its own. -/
theorem bind {k : Closure} {i : Nat} {c : Class} (h : s.AtHome es)
    (nonempty : globalFrame < s.frames.size) (hk : k.AtHome es s) (hc : c.AtHome es s) :
    (s.bind k (.object i c)).2.AtHome es ∧
      (s.bind k (.object i c)).1.AtHome es (s.bind k (.object i c)).2 := by
  have hframe := h.newFrame_single k.env thisName (show (Value.object i c).AtHome es s from hc)
  have hident : (s.newFrame (some k.env) (NameTable.empty.put thisName (.object i c))).2.Later
      (s.bind k (.object i c)).2 := (Moves.of_frames (by rfl)).toLater
  have hhome := hframe.step (List.Subset.refl _) hident (fun φ y w hw => .inl hw)
    fun j y w hw => .inl hw
  refine ⟨hhome, ?_⟩
  have hk' := hk.mono (List.Subset.refl _) ((Later.newFrame s _ _).trans hident)
  refine Home.out hk' (Nat.ne_of_gt nonempty) ?_ ?_
  · show (s.newFrame _ _).2.lookup s.frames.size superName = none
    rw [s.lookup_newFrame, if_pos rfl]
    exact NameTable.find?_put_of_ne _ _ (by decide)
  · show (s.newFrame _ _).2.parent? s.frames.size = some k.env
    rw [s.parent?_newFrame, if_pos rfl]

end AtHome
end Store
end ClassScript
