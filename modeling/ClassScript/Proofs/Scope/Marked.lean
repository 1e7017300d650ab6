/-
# Scopes of keywords

The source declares `this` and `super` only in the scopes that the analysis opens for them
(`Marked`), for no name that a program declares is a keyword. So the nearest scope in which
the source declares a keyword is the nearest scope that holds it.

Key theorem: `Visits.marked`, at every node that the analysis comes to.
-/
import ClassScript.Proofs.Scope.Accepted

namespace ClassScript
namespace Scope

open Analysis

/-- A scope in which the source declares a keyword holds it. -/
def Marked (scopes : List (NameTable Readiness)) (declares : List (List String)) : Prop :=
  List.Forall₂ (fun scope names => ∀ x ∈ names, ¬ ProperName x → scope.contains x = true) scopes
    declares

variable {scopes : List (NameTable Readiness)} {declares : List (List String)} {c c' : Context}
  {n n' : Node}

namespace Marked

/-- Names are added to the innermost scope. -/
theorem onInnermost {change : NameTable Readiness → NameTable Readiness} (h : Marked scopes declares)
    (hchange : ∀ scope x, scope.contains x = true → (change scope).contains x = true) :
    Marked (Analysis.onInnermost change scopes) declares := by
  cases h with
  | nil => exact .nil
  | cons hhead htail => exact .cons (fun x hx hp => hchange _ x (hhead x hx hp)) htail

theorem settled (h : Marked scopes declares) (x : Option String) :
    Marked (Analysis.settled scopes x) declares := by
  cases x with
  | none => exact h
  | some x =>
    refine h.onInnermost fun scope y hy => ?_
    rw [NameTable.contains_put, NameTable.contains_put, hy]
    simp

/-- A scope is opened in which the source declares no keyword. -/
theorem open_scope {scope : NameTable Readiness} {names : List String} (h : Marked scopes declares)
    (hproper : ∀ x ∈ names, ProperName x) : Marked (scope :: scopes) (names :: declares) :=
  .cons (fun x hx hp => absurd (hproper x hx) hp) h

/-- A scope is opened for a keyword. -/
theorem open_keyword (h : Marked scopes declares) (x : String) :
    Marked (NameTable.empty.put x .defined :: scopes) ([x] :: declares) := by
  refine .cons (fun y hy _ => ?_) h
  rw [List.mem_singleton.mp hy, NameTable.contains_put]
  simp

end Marked

/-- No name that proper statements declare is a keyword. -/
theorem declaredBy_proper {body : List Stmt} (h : Stmt.ProperAll body) :
    ∀ x ∈ declaredBy body, ProperName x := by
  intro x hx
  obtain ⟨s, hs, hdeclares⟩ := List.mem_filterMap.mp hx
  exact proper_declares ((Stmt.properAll_iff body).mp h s hs) x hdeclares

theorem stmt_child_marked {s : Stmt} (h : (c', n') ∈ c.children (.stmt s)) (hp : s.Proper)
    (hm : Marked c.scopes c.declares) : Marked c'.scopes c'.declares := by
  have hafter : ∀ e : Expr, (c.after (.expr e)).scopes = c.scopes := fun e => expr_scopes _ _ _
  cases s with
  | expression sp e | print sp e =>
    simp only [Context.children, List.mem_singleton, Prod.mk.injEq] at h
    exact h.1 ▸ hm
  | var sp x init =>
    cases init <;> simp only [Context.children, List.mem_singleton, Prod.mk.injEq,
      List.not_mem_nil] at h
    obtain ⟨rfl, rfl⟩ := h
    show Marked (c.analysis.declare x sp).scopes c.declares
    rw [declare_scopes, put_scopes]
    refine hm.onInnermost fun scope y hy => ?_
    rw [NameTable.contains_put, hy]
    simp
  | block sp body =>
    simp only [Context.children, List.mem_singleton, Prod.mk.injEq] at h
    obtain ⟨rfl, rfl⟩ := h
    exact hm.open_scope (declaredBy_proper hp)
  | branch sp e yes no =>
    have hyes : ((c.after (.expr e)).after (.stmt yes)).scopes = settled c.scopes yes.declares :=
      hafter e ▸ stmt_scopes _ _ _ yes hp.2.1.2
    cases no <;> simp only [Context.children, List.mem_cons, Prod.mk.injEq, List.not_mem_nil,
      or_false] at h
    case none =>
      rcases h with ⟨rfl, -⟩ | ⟨rfl, -⟩
      · exact hm
      · exact (hafter e).symm ▸ hm
    case some no =>
      rcases h with ⟨rfl, -⟩ | ⟨rfl, -⟩ | ⟨rfl, -⟩
      · exact hm
      · exact (hafter e).symm ▸ hm
      · exact hyes.symm ▸ hm.settled yes.declares
  | loop sp e body =>
    simp only [Context.children, List.mem_cons, Prod.mk.injEq, List.not_mem_nil, or_false] at h
    rcases h with ⟨rfl, -⟩ | ⟨rfl, -⟩
    · exact hm
    · exact (hafter e).symm ▸ hm
  | function sp d =>
    simp only [Context.children, List.mem_singleton, Prod.mk.injEq] at h
    obtain ⟨rfl, -⟩ := h
    show Marked (c.analysis.introduce d.declared).scopes c.declares
    rw [introduce_scopes]
    exact hm.settled _
  | «return» sp value =>
    cases value <;> simp only [Context.children, List.mem_singleton, Prod.mk.injEq,
      List.not_mem_nil] at h
    obtain ⟨rfl, -⟩ := h
    unfold Context.scopes
    rw [reportIf_scopes, reportIf_scopes]
    exact hm
  | classDecl sp name parent ms =>
    have hname := hm.settled (some name.name)
    cases parent <;> simp only [Context.children, List.mem_cons, Prod.mk.injEq, List.not_mem_nil,
      or_false] at h
    case none =>
      obtain ⟨rfl, -⟩ := h
      rw [baseClass_scopes]
      exact hname.open_keyword thisName
    case some parent =>
      rcases h with ⟨rfl, -⟩ | ⟨rfl, -⟩
      · rw [superclass_scopes]
        exact hname
      · rw [derivedClass_scopes]
        exact (hname.open_keyword superName).open_keyword thisName

theorem child_marked (h : (c', n') ∈ c.children n) (hp : n.Proper)
    (hm : Marked c.scopes c.declares) : Marked c'.scopes c'.declares := by
  cases n with
  | expr e =>
    obtain ⟨hs, hd, -⟩ := expr_child h
    rwa [hs, hd]
  | stmt s => exact stmt_child_marked h hp hm
  | exprs es =>
    cases es <;> simp only [Context.children, List.mem_cons, Prod.mk.injEq, List.not_mem_nil,
      or_false] at h
    rcases h with ⟨rfl, -⟩ | ⟨rfl, -⟩
    · exact hm
    · unfold Context.scopes Context.after Context.visit
      rwa [expr_scopes]
  | stmts ss =>
    cases ss <;> simp only [Context.children, List.mem_cons, Prod.mk.injEq, List.not_mem_nil,
      or_false] at h
    rcases h with ⟨rfl, -⟩ | ⟨rfl, -⟩
    · exact hm
    · unfold Context.scopes Context.after Context.visit
      rw [stmt_scopes _ _ _ _ hp.1]
      exact hm.settled _
  | function d =>
    cases d with
    | mk d params body =>
      simp only [Context.children, List.mem_singleton, Prod.mk.injEq] at h
      obtain ⟨rfl, rfl⟩ := h
      obtain ⟨scope, hs, -⟩ := introduceAll_scopes params (push_scopes c.analysis)
      show Marked (params.foldl introduce c.analysis.push).scopes
        ((params.map Declared.name ++ declaredBy body) :: c.declares)
      rw [hs]
      refine hm.open_scope fun x hx => ?_
      rcases List.mem_append.mp hx with hx | hx
      · obtain ⟨q, hq, rfl⟩ := List.mem_map.mp hx
        exact hp.2.1 q hq
      · exact declaredBy_proper hp.2.2 x hx
  | methods ds =>
    cases ds <;> simp only [Context.children, List.mem_cons, Prod.mk.injEq, List.not_mem_nil,
      or_false] at h
    rcases h with ⟨rfl, -⟩ | ⟨rfl, -⟩
    · exact hm
    · unfold Context.scopes
      rwa [function_scopes]

/-- **Keywords are declared only where scopes hold them,** at each node of a program that was built. -/
theorem Visits.marked {p : Program} (hp : p.Built) (hv : Visits p.body c n) :
    Marked c.scopes c.declares := by
  have hcome : ∀ {y : Context × Node}, Comes ({}, .stmts p.body) y →
      Marked y.1.scopes y.1.declares := by
    intro y hy
    induction hy with
    | refl => exact .nil
    | tail hbefore hmem ih => exact child_marked hmem (Visits.accepted hp hbefore).proper ih
  exact hcome hv

end Scope
end ClassScript
