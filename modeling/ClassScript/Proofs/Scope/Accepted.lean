/-
# What holds where the analysis finds no fault

A program that passes the analysis has no fault anywhere, and the depths that the
analysis found for each of its expressions are those of the scopes that were on the
stack when it came there. `Accepted` collects what is known at each node: it holds at
the program (`accepted_start`) and goes from a node to its children (`Accepted.child`),
so it holds wherever the analysis comes to (`Visits.accepted`).

What the run needs is read off at the nodes: `Accepted.depth` and its siblings.
-/
import ClassScript.Proofs.Scope.Tidy
import ClassScript.Session

namespace ClassScript

/-- A program as texts are built into one. -/
structure Program.Built (p : Program) : Prop where
  analyzed : Scope.analyze p.body = .ok p.depths
  proper : Stmt.ProperAll p.body
  nodup : (Stmt.idsOf p.body).Nodup

/-- The identity and the name of an expression that refers to a name. -/
def Expr.refers : Expr → Option (Nat × String)
  | .variable m x => some (m.id, x)
  | .assign m x _ => some (m.id, x)
  | .this m => some (m.id, thisName)
  | .super m _ => some (m.id, superName)
  | _ => none

namespace Scope

open Analysis

/-- The analysis comes to the node `n` in the context `c` without a fault, and the depths it finds
there are those of the table `Δ`. -/
structure Accepted (Δ : Depths) (c : Context) (n : Node) : Prop where
  errors : (c.visit n).errors = []
  depths : ∀ id ∈ n.ids, Δ.find? id = (c.visit n).depths.find? id
  unrecorded : ∀ id ∈ n.ids, c.analysis.depths.find? id = none
  nodup : n.ids.Nodup
  proper : n.Proper
  tidy : Tidy c
  fits : Fits c n

/-! ### From a node to its children -/

variable {Δ : Depths} {c c' : Context} {n n' : Node}

/-- What the analysis does before and behind a child touches nothing of the child. -/
structure Part (c : Context) (n : Node) (c' : Context) (n' : Node) : Prop where
  before : ∃ is, Touches is c.analysis c'.analysis ∧ ∀ id ∈ is, id ∉ n'.ids
  behind : ∃ is, Touches is (c'.visit n') (c.visit n) ∧ ∀ id ∈ is, id ∉ n'.ids

theorem Part.of_touches {is is' : List Nat} (hb : Touches is c.analysis c'.analysis)
    (ha : Touches is' (c'.visit n') (c.visit n)) (hn : n.ids.Nodup)
    (hperm : n.ids.Perm (is ++ (n'.ids ++ is'))) : Part c n c' n' := by
  have hnodup := hperm.nodup_iff.mp hn
  rw [List.nodup_append, List.nodup_append] at hnodup
  obtain ⟨-, ⟨-, -, hafter⟩, hbefore⟩ := hnodup
  refine ⟨⟨is, hb, fun id hid hmem => ?_⟩, ⟨is', ha, fun id hid hmem => ?_⟩⟩
  · exact hbefore id hid id (List.mem_append_left _ hmem) rfl
  · exact hafter id hmem id hid rfl

theorem part_of_expr {e : Expr} (hn : e.ids.Nodup) (h : (c', n') ∈ c.children (.expr e)) :
    Part c (.expr e) c' n' := by
  cases e with
  | literal | «variable» | this | super => simp [Context.children] at h
  | group m e | unary m op e | get m e x =>
    simp only [Context.children, List.mem_singleton, Prod.mk.injEq] at h
    obtain ⟨rfl, rfl⟩ := h
    exact .of_touches (.refl [] _) (.refl [m.id] _) hn (by simp [Node.ids, Expr.ids])
  | assign m x e =>
    simp only [Context.children, List.mem_singleton, Prod.mk.injEq] at h
    obtain ⟨rfl, rfl⟩ := h
    exact .of_touches (.refl [] _) (.refer _ m.id x) hn (by simp [Node.ids, Expr.ids])
  | binary m op l r | logical m op l r =>
    simp only [Context.children, List.mem_cons, Prod.mk.injEq, List.not_mem_nil, or_false] at h
    rcases h with ⟨rfl, rfl⟩ | ⟨rfl, rfl⟩
    · exact .of_touches (.refl [] _) ((expr_touches _ _ r).trans (.refl [m.id] _)) hn
        (by simp [Node.ids, Expr.ids])
    · exact .of_touches (expr_touches _ _ l) (.refl [m.id] _) hn (by simp [Node.ids, Expr.ids])
  | call m callee args =>
    simp only [Context.children, List.mem_cons, Prod.mk.injEq, List.not_mem_nil, or_false] at h
    rcases h with ⟨rfl, rfl⟩ | ⟨rfl, rfl⟩
    · exact .of_touches (.refl [] _) ((exprs_touches _ _ args).trans (.refl [m.id] _)) hn
        (by simp [Node.ids, Expr.ids])
    · exact .of_touches (expr_touches _ _ callee) (.refl [m.id] _) hn
        (by simp [Node.ids, Expr.ids])
  | set m e x v =>
    simp only [Context.children, List.mem_cons, Prod.mk.injEq, List.not_mem_nil, or_false] at h
    rcases h with ⟨rfl, rfl⟩ | ⟨rfl, rfl⟩
    · refine .of_touches (.refl [] _) ((expr_touches _ _ e).trans (.refl [m.id] _)) hn ?_
      refine List.perm_iff_count.mpr fun id => ?_
      simp only [Node.ids, Expr.ids, List.count_append, List.count_nil]
      omega
    · refine .of_touches (expr_touches _ _ v) (.refl [m.id] _) hn ?_
      refine List.perm_iff_count.mpr fun id => ?_
      simp only [Node.ids, Expr.ids, List.count_append]
      omega

theorem part_of_stmt {s : Stmt} (hn : s.ids.Nodup) (h : (c', n') ∈ c.children (.stmt s)) :
    Part c (.stmt s) c' n' := by
  cases s with
  | expression sp e | print sp e =>
    simp only [Context.children, List.mem_singleton, Prod.mk.injEq] at h
    obtain ⟨rfl, rfl⟩ := h
    exact .of_touches (.refl [] _) (.refl [] _) hn (by simp [Node.ids, Stmt.ids])
  | var sp x init =>
    cases init with
    | none => simp [Context.children] at h
    | some e =>
      simp only [Context.children, List.mem_singleton, Prod.mk.injEq] at h
      obtain ⟨rfl, rfl⟩ := h
      exact .of_touches (.declare _ x sp) (.put _ x .defined) hn
        (by simp [Node.ids, Stmt.ids, Expr.optionalIds])
  | block sp body =>
    simp only [Context.children, List.mem_singleton, Prod.mk.injEq] at h
    obtain ⟨rfl, rfl⟩ := h
    exact .of_touches (.push _) (.pop _) hn (by simp [Node.ids, Stmt.ids])
  | branch sp e yes no =>
    cases no with
    | none =>
      simp only [Context.children, List.mem_cons, Prod.mk.injEq, List.not_mem_nil, or_false] at h
      rcases h with ⟨rfl, rfl⟩ | ⟨rfl, rfl⟩
      · exact .of_touches (.refl [] _) (stmt_touches _ _ _ yes) hn
          (by simp [Node.ids, Stmt.ids, Stmt.optionalIds])
      · exact .of_touches (expr_touches _ _ e) (.refl [] _) hn
          (by simp [Node.ids, Stmt.ids, Stmt.optionalIds])
    | some no =>
      simp only [Context.children, List.mem_cons, Prod.mk.injEq, List.not_mem_nil, or_false] at h
      rcases h with ⟨rfl, rfl⟩ | ⟨rfl, rfl⟩ | ⟨rfl, rfl⟩
      · exact .of_touches (.refl [] _) ((stmt_touches _ _ _ yes).trans (stmt_touches _ _ _ no)) hn
          (by simp [Node.ids, Stmt.ids, Stmt.optionalIds])
      · exact .of_touches (expr_touches _ _ e) (stmt_touches _ _ _ no) hn
          (by simp [Node.ids, Stmt.ids, Stmt.optionalIds])
      · exact .of_touches ((expr_touches _ _ e).trans (stmt_touches _ _ _ yes)) (.refl [] _) hn
          (by simp [Node.ids, Stmt.ids, Stmt.optionalIds])
  | loop sp e body =>
    simp only [Context.children, List.mem_cons, Prod.mk.injEq, List.not_mem_nil, or_false] at h
    rcases h with ⟨rfl, rfl⟩ | ⟨rfl, rfl⟩
    · exact .of_touches (.refl [] _) (stmt_touches _ _ _ body) hn (by simp [Node.ids, Stmt.ids])
    · exact .of_touches (expr_touches _ _ e) (.refl [] _) hn (by simp [Node.ids, Stmt.ids])
  | function sp d =>
    cases d
    simp only [Context.children, List.mem_singleton, Prod.mk.injEq] at h
    obtain ⟨rfl, rfl⟩ := h
    exact .of_touches (.introduce _ _) (.refl [] _) hn (by simp [Node.ids, Stmt.ids])
  | «return» sp value =>
    cases value with
    | none => simp [Context.children] at h
    | some e =>
      simp only [Context.children, List.mem_singleton, Prod.mk.injEq] at h
      obtain ⟨rfl, rfl⟩ := h
      exact .of_touches ((Touches.reportIf _ _ _ _).trans (.reportIf _ _ _ _)) (.refl [] _) hn
        (by simp [Node.ids, Stmt.ids, Expr.optionalIds])
  | classDecl sp name parent ms =>
    cases parent with
    | none =>
      simp only [Context.children, List.mem_singleton, Prod.mk.injEq] at h
      obtain ⟨rfl, rfl⟩ := h
      exact .of_touches (((Touches.introduce _ name).trans (.push _)).trans (.put _ thisName _))
        (.pop _) hn (by simp [Node.ids, Stmt.ids])
    | some parent =>
      simp only [Context.children, List.mem_cons, Prod.mk.injEq, List.not_mem_nil, or_false] at h
      have hname := (Touches.introduce c.analysis name).trans (.reportIf _
        (parent.name == name.name) .selfInheritance parent.mark.span)
      rcases h with ⟨rfl, rfl⟩ | ⟨rfl, rfl⟩
      · exact .of_touches hname (((((((Touches.push _).trans (.put _ superName .defined)).trans
          (.push _)).trans (.put _ thisName .defined)).trans
          (methodDecls_touches .derived _ ms)).trans (.pop _)).trans (.pop _)) hn
          (by simp [Node.ids, Stmt.ids, NameUse.expr, Expr.ids])
      · exact .of_touches (((((hname.trans (expr_touches c.kind _ parent.expr)).trans (.push _)).trans
          (.put _ superName .defined)).trans (.push _)).trans (.put _ thisName .defined))
          ((Touches.pop _).trans (.pop _)) hn
          (by simp [Node.ids, Stmt.ids, NameUse.expr, Expr.ids])

/-- **A child is a part of its node.** -/
theorem part_of_child (hn : n.ids.Nodup) (h : (c', n') ∈ c.children n) : Part c n c' n' := by
  cases n with
  | expr e => exact part_of_expr hn h
  | stmt s => exact part_of_stmt hn h
  | exprs es =>
    cases es with
    | nil => simp [Context.children] at h
    | cons e es =>
      simp only [Context.children, List.mem_cons, Prod.mk.injEq, List.not_mem_nil, or_false] at h
      rcases h with ⟨rfl, rfl⟩ | ⟨rfl, rfl⟩
      · exact .of_touches (.refl [] _) (exprs_touches _ _ es) hn (by simp [Node.ids])
      · exact .of_touches (expr_touches _ _ e) (.refl [] _) hn (by simp [Node.ids])
  | stmts ss =>
    cases ss with
    | nil => simp [Context.children] at h
    | cons s ss =>
      simp only [Context.children, List.mem_cons, Prod.mk.injEq, List.not_mem_nil, or_false] at h
      rcases h with ⟨rfl, rfl⟩ | ⟨rfl, rfl⟩
      · exact .of_touches (.refl [] _) (stmts_touches _ _ _ ss) hn (by simp [Node.ids])
      · exact .of_touches (stmt_touches _ _ _ s) (.refl [] _) hn (by simp [Node.ids])
  | function d =>
    cases d with
    | mk d params body =>
      simp only [Context.children, List.mem_singleton, Prod.mk.injEq] at h
      obtain ⟨rfl, rfl⟩ := h
      exact .of_touches ((Touches.push _).trans (.introduceAll params _)) (.pop _) hn
        (by simp [Node.ids, FunctionDecl.ids])
  | methods ds =>
    cases ds with
    | nil => simp [Context.children] at h
    | cons d ds =>
      cases d with
      | mk d params body =>
        simp only [Context.children, List.mem_cons, Prod.mk.injEq, List.not_mem_nil, or_false] at h
        rcases h with ⟨rfl, rfl⟩ | ⟨rfl, rfl⟩
        · exact .of_touches (.refl [] _) (methodDecls_touches _ _ ds) hn (by simp [Node.ids])
        · exact .of_touches (function_touches _ _ _ (.mk d params body)) (.refl [] _) hn
            (by simp [Node.ids])

/-- **What is known at a node is known at its children.** -/
theorem Accepted.child (ha : Accepted Δ c n) (h : (c', n') ∈ c.children n) : Accepted Δ c' n' := by
  obtain ⟨⟨is, hbefore, hout⟩, ⟨is', hbehind, hout'⟩⟩ := part_of_child ha.nodup h
  obtain ⟨hnodup, hsub⟩ := children_nodup ha.nodup h
  have herr := hbehind.errors_nil ha.errors
  obtain ⟨htidy, hfits⟩ := child_fits h herr ha.proper ha.tidy ha.fits
  refine ⟨herr, fun id hid => ?_, fun id hid => ?_, hnodup, child_proper ha.proper h, htidy, hfits⟩
  · rw [ha.depths id (hsub id hid).1]
    exact hbehind.depths id fun hmem => hout' id hmem hid
  · rw [hbefore.depths id fun hmem => hout id hmem hid]
    exact ha.unrecorded id (hsub id hid).1

/-! ### Programs -/

/-- What the analysis of a program that was built has found. -/
theorem built_analysis {p : Program} (h : p.Built) :
    (stmts .none .none {} p.body).errors = [] ∧ (stmts .none .none {} p.body).depths = p.depths := by
  have hanalyzed := h.analyzed
  unfold analyze at hanalyzed
  dsimp only at hanalyzed
  split at hanalyzed
  next he =>
    injection hanalyzed with hdepths
    exact ⟨List.isEmpty_iff.mp he, hdepths⟩
  next => cases hanalyzed

/-- The analysis finds depths for expressions of the program only. -/
theorem depths_own {p : Program} (h : p.Built) {id : Nat} (hid : id ∉ Stmt.idsOf p.body) :
    p.depths.find? id = none := by
  rw [← (built_analysis h).2, (stmts_touches .none .none {} p.body).depths id hid]
  simp [Depths.find?]

theorem accepted_start {p : Program} (h : p.Built) : Accepted p.depths {} (.stmts p.body) := by
  obtain ⟨herrors, hdepths⟩ := built_analysis h
  refine ⟨herrors, fun id _ => ?_, fun id _ => ?_, h.nodup, h.proper, ?_, ?_⟩
  · rw [← hdepths]
    rfl
  · simp [Depths.find?]
  · exact ⟨.nil, by simp [Ready, Context.scopes], by simp [Context.scopes], by simp, by simp⟩
  · exact ⟨rfl, by simp [Ready, Context.scopes], by simp⟩

/-- **A program that passed the analysis is free of faults at each of its nodes.** -/
theorem Visits.accepted {p : Program} (h : p.Built) (hv : Visits p.body c n) :
    Accepted p.depths c n := by
  have hcome : ∀ {x y : Context × Node}, Comes x y → Accepted p.depths x.1 x.2 →
      Accepted p.depths y.1 y.2 := by
    intro x y hxy ha
    induction hxy with
    | refl => exact ha
    | tail _ hmem ih => exact ih.child hmem
  exact hcome hv (accepted_start h)

theorem Visits.child {body : List Stmt} (hv : Visits body c n) (h : (c', n') ∈ c.children n) :
    Visits body c' n' := hv.tail h

/-! ### References -/

theorem refer_depths (a : Analysis) (id : Nat) (x : String) :
    (a.refer id x).depths.find? id = (depthIn a.scopes x).or (a.depths.find? id) := by
  unfold refer depth? depthIn
  cases a.scopes.findIdx? (·.contains x) with
  | none => rfl
  | some d => simp [Depths.find?_record]

namespace Accepted

/-- **The depth of a reference is that of its name** in the scopes where the analysis came to
it. -/
theorem depth {e : Expr} {id : Nat} {x : String} (ha : Accepted Δ c (.expr e))
    (hr : e.refers = some (id, x)) : Δ.find? id = depthIn c.scopes x := by
  have hid : id ∈ e.ids := by
    cases e <;> simp_all [Expr.refers, Expr.ids]
  have hnone := ha.unrecorded id hid
  rw [ha.depths id hid]
  cases e <;> simp only [Expr.refers, Option.some.injEq, Prod.mk.injEq, reduceCtorEq] at hr
  case «variable» m y =>
    obtain ⟨rfl, rfl⟩ := hr
    rw [Context.visit, expr, refer_depths, reportIf_scopes,
      (Touches.reportIf _ _ _ _).depths m.id (by simp), hnone]
    exact Option.or_none
  case assign m y e =>
    obtain ⟨rfl, rfl⟩ := hr
    have hnot : m.id ∉ e.ids := by
      have hnodup := ha.nodup
      rw [Node.ids, Expr.ids, List.nodup_append] at hnodup
      exact fun hmem => hnodup.2.2 m.id hmem m.id (by simp) rfl
    rw [Context.visit, expr, refer_depths, expr_scopes,
      (expr_touches c.kind c.analysis e).depths m.id hnot, hnone]
    exact Option.or_none
  case this m =>
    obtain ⟨rfl, rfl⟩ := hr
    have herr := ha.errors
    rw [Context.visit, expr] at herr ⊢
    split at herr
    next => simp [report] at herr
    next hk =>
      rw [if_neg hk, refer_depths, hnone]
      exact Option.or_none
  case super m y =>
    obtain ⟨rfl, rfl⟩ := hr
    have herr := ha.errors
    rw [Context.visit, expr] at herr ⊢
    split at herr
    next =>
      have := (Touches.refer _ m.id superName).errors_nil herr
      simp [report] at this
    next =>
      rw [refer_depths, hnone]
      exact Option.or_none

/-- A local name that is read is ready, and it is not the class whose superclass it is. -/
theorem variable_ready {m : Mark} {x : String} (ha : Accepted Δ c (.expr (.variable m x))) :
    (∀ scope ∈ c.scopes, scope.find? x ≠ some .declared) ∧ c.awaiting ≠ some x := by
  refine ⟨fun scope hmem => ?_, fun hx => ?_⟩
  · have herr := (Touches.refer _ m.id x).errors_nil ha.errors
    have htail := ha.tidy.ready
    cases hs : c.scopes with
    | nil => simp [hs] at hmem
    | cons head rest =>
      rw [hs] at hmem htail
      rcases List.mem_cons.mp hmem with rfl | hmem
      · intro hdecl
        have hin : c.analysis.innermost? x = some .declared := by
          rw [Context.scopes] at hs
          rw [innermost?, hs]
          exact hdecl
        simp [hin, reportIf, report] at herr
      · exact htail scope hmem x
  · obtain ⟨_, _, heq, hne⟩ := ha.fits x hx
    cases heq
    exact hne rfl

/-- A `this` stands inside of a class, and a `super` inside of one with a superclass. -/
theorem this_inside {m : Mark} (ha : Accepted Δ c (.expr (.this m))) : c.kind ≠ .none := by
  intro hk
  have herr := ha.errors
  rw [Context.visit, expr, if_pos hk] at herr
  simp [report] at herr

theorem super_inside {m : Mark} {x : String} (ha : Accepted Δ c (.expr (.super m x))) :
    c.kind = .derived := by
  have herr := ha.errors
  rw [Context.visit, expr] at herr
  cases hk : c.kind with
  | derived => rfl
  | none | base =>
    rw [hk] at herr
    have := (Touches.refer _ m.id superName).errors_nil herr
    simp [superFault?, report] at this

/-- A name that a statement declares is not in the innermost scope yet. -/
theorem declares_new {s : Stmt} {x : String} (ha : Accepted Δ c (.stmt s))
    (hx : s.declares = some x) : ∀ scope ∈ c.scopes.head?, scope.contains x = false := by
  have herr := ha.errors
  cases s <;> simp only [Stmt.declares, Option.some.injEq, reduceCtorEq] at hx
  case var sp y init =>
    subst hx
    have h := ((optionalExpr_touches c.kind _ init).trans (.put _ y .defined)).errors_nil herr
    exact contains_of_declare h
  case function sp d =>
    cases d with
    | mk d params body =>
      subst hx
      have h := (function_touches .function c.kind (c.analysis.introduce d)
        (.mk d params body)).errors_nil herr
      exact contains_of_declare ((Touches.put _ d.name .defined).errors_nil h)
  case classDecl sp d parent ms =>
    subst hx
    have h : (c.analysis.introduce d).errors = [] := by
      cases parent with
      | none =>
        exact ((((Touches.push _).trans (.put _ thisName .defined)).trans
          (methodDecls_touches .base _ ms)).trans (.pop _)).errors_nil herr
      | some parent =>
        have hsup := ((Touches.reportIf (c.analysis.introduce d) (parent.name == d.name)
          .selfInheritance parent.mark.span).trans (expr_touches .derived _ parent.expr)).trans
          ((Touches.push _).trans (.put _ superName .defined))
        exact ((((hsup.trans (.push _)).trans (.put _ thisName .defined)).trans
          (methodDecls_touches .derived _ ms)).trans ((Touches.pop _).trans (.pop _))).errors_nil herr
    exact contains_of_declare ((Touches.put _ d.name .defined).errors_nil h)

/-- The parameters of a function have different names. -/
theorem params_nodup {d : FunctionDecl} (ha : Accepted Δ c (.function d)) :
    (d.params.map Declared.name).Nodup := by
  cases d with
  | mk d params body =>
    have herr := ((stmts_touches c.function c.kind _ body).trans (.pop _)).errors_nil ha.errors
    exact (introduceAll_nodup params (push_scopes c.analysis) herr).1

end Accepted

end Scope
end ClassScript
