/-
# What the analysis of a part touches

Analysing a part of a program records depths for the identities of that part and for no
others, and takes no error back (`Touches`). An expression leaves the scopes as they are;
a statement puts the name it declares into the innermost scope and leaves the others
alone.

Key theorems: `expr_touches`, `stmt_touches`, `expr_scopes`, `stmt_scopes`.
-/
import ClassScript.Proofs.Syntax.Proper

namespace ClassScript

namespace Scope
namespace Analysis

variable {a a₁ a' : Analysis} {is is' : List Nat}

/-! ### Identities and errors -/

/-- From `a` to `a'` depths were recorded for the identities `is` at most, and errors were added. -/
structure Touches (is : List Nat) (a a' : Analysis) : Prop where
  errors : a.errors <:+ a'.errors
  depths : ∀ id, id ∉ is → a'.depths.find? id = a.depths.find? id

namespace Touches

theorem refl (is : List Nat) (a : Analysis) : Touches is a a := ⟨List.suffix_refl _, fun _ _ => rfl⟩

theorem trans (h : Touches is a a₁) (h' : Touches is' a₁ a') : Touches (is ++ is') a a' := by
  refine ⟨h.errors.trans h'.errors, fun id hid => ?_⟩
  rw [List.mem_append, not_or] at hid
  rw [h'.depths id hid.2, h.depths id hid.1]

theorem mono (h : Touches is a a') (hsub : ∀ id ∈ is, id ∈ is') : Touches is' a a' :=
  ⟨h.errors, fun id hid => h.depths id fun hmem => hid (hsub id hmem)⟩

/-- A part without errors comes from one without errors. -/
theorem errors_nil (h : Touches is a a') (he : a'.errors = []) : a.errors = [] := by
  have hs := h.errors
  rw [he] at hs
  exact List.suffix_nil.mp hs

theorem reportIf (a : Analysis) (found : Bool) (problem : ScopeProblem) (span : Span) :
    Touches [] a (a.reportIf found problem span) := by
  unfold Analysis.reportIf report
  split
  · exact ⟨List.suffix_cons _ _, fun _ _ => rfl⟩
  · exact .refl _ _

theorem put (a : Analysis) (x : String) (r : Readiness) : Touches [] a (a.put x r) := by
  unfold Analysis.put
  split
  · exact .refl _ _
  · exact ⟨List.suffix_refl _, fun _ _ => rfl⟩

theorem push (a : Analysis) : Touches [] a a.push := ⟨List.suffix_refl _, fun _ _ => rfl⟩

theorem pop (a : Analysis) : Touches [] a a.pop := ⟨List.suffix_refl _, fun _ _ => rfl⟩

theorem declare (a : Analysis) (x : String) (span : Span) : Touches [] a (a.declare x span) :=
  (Touches.reportIf a _ _ span).trans (.put _ _ _)

theorem introduce (a : Analysis) (d : Declared) : Touches [] a (a.introduce d) :=
  (Touches.declare a d.name d.span).trans (.put _ _ _)

theorem introduceAll : ∀ (ds : List Declared) (a : Analysis),
    Touches [] a (ds.foldl Analysis.introduce a)
  | [], _ => .refl _ _
  | d :: ds, a => (Touches.introduce a d).trans (introduceAll ds _)

theorem refer (a : Analysis) (id : Nat) (x : String) : Touches [id] a (a.refer id x) := by
  unfold Analysis.refer
  split
  · refine ⟨List.suffix_refl _, fun i hi => ?_⟩
    rw [List.mem_singleton] at hi
    rw [Depths.find?_record, if_neg (Ne.symm hi)]
  · exact .refl _ _

end Touches

mutual

/-- **An expression touches its own identities.** -/
theorem expr_touches (k : ClassKind) : ∀ (a : Analysis) (e : Expr),
    Touches e.ids a (a.expr k e)
  | _, .literal _ _ => .refl _ _
  | a, .group m e | a, .unary m _ e | a, .get m e _ =>
    (expr_touches k a e).mono fun _ h => List.mem_append_left _ h
  | a, .variable m x => (Touches.reportIf a _ _ _).trans (.refer _ _ _)
  | a, .assign m x e => (expr_touches k a e).trans (.refer _ _ _)
  | a, .binary m _ l r | a, .logical m _ l r =>
    ((expr_touches k a l).trans (expr_touches k _ r)).mono fun _ h => List.mem_append_left _ h
  | a, .call m callee args =>
    ((expr_touches k a callee).trans (exprs_touches k _ args)).mono fun _ h =>
      List.mem_append_left _ h
  | a, .set m e _ v => by
    refine ((expr_touches k a v).trans (expr_touches k _ e)).mono fun id h => ?_
    rcases List.mem_append.mp h with h | h <;> simp [Expr.ids, h]
  | a, .this m => by
    unfold expr
    split
    · exact (Touches.reportIf a true _ _).mono (by simp)
    · exact .refer _ _ _
  | a, .super m x => by
    unfold expr
    dsimp only
    split
    · exact (Touches.reportIf a true _ _).trans (.refer _ _ _)
    · exact .refer _ _ _

theorem exprs_touches (k : ClassKind) : ∀ (a : Analysis) (es : List Expr),
    Touches (Expr.idsOf es) a (a.exprs k es)
  | _, [] => .refl _ _
  | a, e :: es => (expr_touches k a e).trans (exprs_touches k _ es)

end

theorem optionalExpr_touches (k : ClassKind) (a : Analysis) : ∀ e : Option Expr,
    Touches (Expr.optionalIds e) a (a.optionalExpr k e)
  | none => .refl _ _
  | some e => expr_touches k a e

mutual

/-- **A statement touches its own identities.** -/
theorem stmt_touches (f : FunctionKind) (k : ClassKind) : ∀ (a : Analysis) (s : Stmt),
    Touches s.ids a (a.stmt f k s)
  | a, .expression _ e | a, .print _ e => expr_touches k a e
  | a, .var s x init => by
    have h := ((Touches.declare a x s).trans (optionalExpr_touches k _ init)).trans
      (.put _ x .defined)
    exact h.mono fun id hid => by simpa [Stmt.ids] using hid
  | a, .block _ body => by
    have h := ((Touches.push a).trans (stmts_touches f k _ body)).trans (.pop _)
    exact h.mono fun id hid => by simpa [Stmt.ids] using hid
  | a, .branch _ c yes no =>
    ((expr_touches k a c).trans (stmt_touches f k _ yes)).trans (optionalStmt_touches f k _ no)
  | a, .loop _ c body => (expr_touches k a c).trans (stmt_touches f k _ body)
  | a, .function _ (.mk d params body) =>
    (Touches.introduce a d).trans (function_touches .function k _ (.mk d params body))
  | a, .return s value =>
    ((Touches.reportIf a _ _ _).trans (.reportIf _ _ _ _)).trans (optionalExpr_touches k _ value)
  | a, .classDecl _ name none methods => by
    have h := ((((Touches.introduce a name).trans (.push _)).trans (.put _ thisName .defined)).trans
      (methodDecls_touches .base _ methods)).trans (.pop _)
    exact h.mono fun id hid => by simpa [Stmt.ids] using hid
  | a, .classDecl _ name (some parent) methods => by
    have h₁ := ((Touches.introduce a name).trans (.reportIf _ (parent.name == name.name)
      .selfInheritance parent.mark.span)).trans (expr_touches .derived _ parent.expr)
    have h₂ := (((h₁.trans (.push _)).trans (.put _ superName .defined)).trans (.push _)).trans
      (.put _ thisName .defined)
    have h := ((h₂.trans (methodDecls_touches .derived _ methods)).trans (.pop _)).trans (.pop _)
    exact h.mono fun id hid => by simpa [Stmt.ids, NameUse.expr, Expr.ids] using hid

theorem stmts_touches (f : FunctionKind) (k : ClassKind) : ∀ (a : Analysis) (ss : List Stmt),
    Touches (Stmt.idsOf ss) a (a.stmts f k ss)
  | _, [] => .refl _ _
  | a, s :: ss => (stmt_touches f k a s).trans (stmts_touches f k _ ss)

theorem optionalStmt_touches (f : FunctionKind) (k : ClassKind) : ∀ (a : Analysis)
    (s : Option Stmt), Touches (Stmt.optionalIds s) a (a.optionalStmt f k s)
  | _, none => .refl _ _
  | a, some s => stmt_touches f k a s

theorem function_touches (f : FunctionKind) (k : ClassKind) : ∀ (a : Analysis) (d : FunctionDecl),
    Touches d.ids a (a.function f k d)
  | a, .mk d params body => by
    have h := (((Touches.push a).trans (.introduceAll params _)).trans
      (stmts_touches f k _ body)).trans (.pop _)
    exact h.mono fun id hid => by simpa [FunctionDecl.ids] using hid

theorem methodDecls_touches (k : ClassKind) : ∀ (a : Analysis) (ds : List FunctionDecl),
    Touches (FunctionDecl.idsOf ds) a (a.methodDecls k ds)
  | _, [] => .refl _ _
  | a, .mk d params body :: ms =>
    (function_touches (methodKind d.name) k a (.mk d params body)).trans
      (methodDecls_touches k _ ms)

end

/-! ### Scopes -/

/-- The scopes with a change of the innermost one, if there is one. -/
def onInnermost (change : NameTable Readiness → NameTable Readiness) :
    List (NameTable Readiness) → List (NameTable Readiness)
  | [] => []
  | scope :: rest => change scope :: rest

/-- The scopes with a name declared and defined in the innermost one, if there is a name. -/
def settled (scopes : List (NameTable Readiness)) : Option String → List (NameTable Readiness)
  | some x => onInnermost (fun scope => (scope.put x .declared).put x .defined) scopes
  | none => scopes

@[simp] theorem reportIf_scopes (a : Analysis) (found : Bool) (problem : ScopeProblem)
    (span : Span) : (a.reportIf found problem span).scopes = a.scopes := by
  unfold reportIf report
  split <;> rfl

@[simp] theorem report_scopes (a : Analysis) (problem : ScopeProblem) (span : Span) :
    (a.report problem span).scopes = a.scopes := rfl

@[simp] theorem refer_scopes (a : Analysis) (id : Nat) (x : String) :
    (a.refer id x).scopes = a.scopes := by
  unfold refer
  split <;> rfl

@[simp] theorem push_scopes (a : Analysis) : a.push.scopes = .empty :: a.scopes := rfl

@[simp] theorem pop_scopes (a : Analysis) : a.pop.scopes = a.scopes.tail := rfl

/-- What putting a name into the innermost scope does. -/
theorem put_scopes (a : Analysis) (x : String) (r : Readiness) :
    (a.put x r).scopes = onInnermost (·.put x r) a.scopes := by
  cases h : a.scopes <;> simp [put, h, onInnermost]

theorem declare_scopes (a : Analysis) (x : String) (span : Span) :
    (a.declare x span).scopes = (a.put x .declared).scopes := by
  rw [declare, put_scopes, put_scopes, reportIf_scopes]

theorem introduce_scopes (a : Analysis) (d : Declared) :
    (a.introduce d).scopes = settled a.scopes (some d.name) := by
  rw [introduce, define, put_scopes, declare_scopes, put_scopes]
  cases a.scopes <;> rfl

theorem settled_tail (scopes : List (NameTable Readiness)) (x : Option String) :
    (settled scopes x).tail = scopes.tail := by
  cases scopes <;> cases x <;> rfl

theorem introduceAll_tail : ∀ (ds : List Declared) (a : Analysis),
    (ds.foldl introduce a).scopes.tail = a.scopes.tail
  | [], _ => rfl
  | d :: ds, a => by
    rw [List.foldl_cons, introduceAll_tail ds, introduce_scopes, settled_tail]

mutual

/-- **An expression leaves the scopes as they are.** -/
@[simp] theorem expr_scopes (k : ClassKind) : ∀ (a : Analysis) (e : Expr),
    (a.expr k e).scopes = a.scopes
  | _, .literal _ _ => rfl
  | a, .group _ e | a, .unary _ _ e | a, .get _ e _ => expr_scopes k a e
  | a, .variable m x => by simp [expr]
  | a, .assign m x e => by rw [expr, refer_scopes, expr_scopes k a e]
  | a, .binary _ _ l r | a, .logical _ _ l r => by
    rw [expr, expr_scopes k _ r, expr_scopes k a l]
  | a, .call _ callee args => by rw [expr, exprs_scopes k _ args, expr_scopes k a callee]
  | a, .set _ e _ v => by rw [expr, expr_scopes k _ e, expr_scopes k a v]
  | a, .this m => by
    unfold expr
    split <;> simp
  | a, .super m x => by
    unfold expr
    dsimp only
    split <;> simp

@[simp] theorem exprs_scopes (k : ClassKind) : ∀ (a : Analysis) (es : List Expr),
    (a.exprs k es).scopes = a.scopes
  | _, [] => rfl
  | a, e :: es => by rw [exprs, exprs_scopes k _ es, expr_scopes k a e]

end

@[simp] theorem optionalExpr_scopes (k : ClassKind) (a : Analysis) : ∀ e : Option Expr,
    (a.optionalExpr k e).scopes = a.scopes
  | none => rfl
  | some e => expr_scopes k a e

mutual

/-- A statement leaves all scopes but the innermost as they are. -/
theorem stmt_tail (f : FunctionKind) (k : ClassKind) : ∀ (a : Analysis) (s : Stmt),
    (a.stmt f k s).scopes.tail = a.scopes.tail
  | a, .expression _ e | a, .print _ e => by rw [stmt, expr_scopes]
  | a, .var s x init => by
    rw [stmt, define, put_scopes, optionalExpr_scopes, declare_scopes, put_scopes]
    cases a.scopes <;> rfl
  | a, .block _ body => by
    rw [stmt, pop_scopes, stmts_tail f k _ body]
    rfl
  | a, .branch _ c yes no => by
    rw [stmt, optionalStmt_tail f k _ no, stmt_tail f k _ yes, expr_scopes]
  | a, .loop _ c body => by rw [stmt, stmt_tail f k _ body, expr_scopes]
  | a, .function _ (.mk d params body) => by
    rw [stmt, function_scopes .function k _ (.mk d params body), introduce_scopes, settled_tail]
  | a, .return s value => by simp [stmt]
  | a, .classDecl _ name none methods => by
    rw [stmt, pop_scopes, methodDecls_scopes .base _ methods, define, put_scopes, push_scopes,
      introduce_scopes]
    exact settled_tail a.scopes (some name.name)
  | a, .classDecl _ name (some parent) methods => by
    rw [stmt]
    simp only [pop_scopes, methodDecls_scopes .derived _ methods, define, put_scopes, push_scopes,
      expr_scopes, reportIf_scopes, introduce_scopes]
    exact settled_tail a.scopes (some name.name)

theorem stmts_tail (f : FunctionKind) (k : ClassKind) : ∀ (a : Analysis) (ss : List Stmt),
    (a.stmts f k ss).scopes.tail = a.scopes.tail
  | _, [] => rfl
  | a, s :: ss => by rw [stmts, stmts_tail f k _ ss, stmt_tail f k a s]

theorem optionalStmt_tail (f : FunctionKind) (k : ClassKind) : ∀ (a : Analysis)
    (s : Option Stmt), (a.optionalStmt f k s).scopes.tail = a.scopes.tail
  | _, none => rfl
  | a, some s => stmt_tail f k a s

theorem function_scopes (f : FunctionKind) (k : ClassKind) : ∀ (a : Analysis) (d : FunctionDecl),
    (a.function f k d).scopes = a.scopes
  | a, .mk d params body => by
    rw [function, pop_scopes, stmts_tail f k _ body, introduceAll_tail]
    rfl

theorem methodDecls_scopes (k : ClassKind) : ∀ (a : Analysis) (ds : List FunctionDecl),
    (a.methodDecls k ds).scopes = a.scopes
  | _, [] => rfl
  | a, .mk d params body :: ms => by
    rw [methodDecls, methodDecls_scopes k _ ms, function_scopes _ k a (.mk d params body)]

end

/-- **A statement settles the name it declares,** and that is all it does to the scopes. -/
theorem stmt_scopes (f : FunctionKind) (k : ClassKind) : ∀ (a : Analysis) (s : Stmt), s.Proper →
    (a.stmt f k s).scopes = settled a.scopes s.declares
  | a, .expression _ e, _ | a, .print _ e, _ => by
    rw [stmt, expr_scopes]
    cases a.scopes <;> rfl
  | a, .var s x init, _ => by
    rw [stmt, define, put_scopes, optionalExpr_scopes, declare_scopes, put_scopes]
    cases a.scopes <;> rfl
  | a, .block _ body, _ => by
    rw [stmt, pop_scopes, stmts_tail, push_scopes]
    cases a.scopes <;> rfl
  | a, .branch _ c yes none, ⟨_, ⟨hn, hyes⟩, _⟩ => by
    rw [stmt, optionalStmt, stmt_scopes f k _ yes hyes, hn, expr_scopes]
    rfl
  | a, .branch _ c yes (some no), ⟨_, ⟨hn, hyes⟩, hn', hno⟩ => by
    rw [stmt, optionalStmt, stmt_scopes f k _ no hno, hn', stmt_scopes f k _ yes hyes, hn,
      expr_scopes]
    cases a.scopes <;> rfl
  | a, .loop _ c body, ⟨_, hn, hbody⟩ => by
    rw [stmt, stmt_scopes f k _ body hbody, hn, expr_scopes]
    rfl
  | a, .function _ (.mk d params body), _ => by
    rw [stmt, function_scopes, introduce_scopes]
    rfl
  | a, .return s value, _ => by
    simp only [stmt, optionalExpr_scopes, reportIf_scopes]
    cases a.scopes <;> rfl
  | a, .classDecl _ name none methods, _ => by
    rw [stmt, pop_scopes, methodDecls_scopes, define, put_scopes, push_scopes, introduce_scopes]
    rfl
  | a, .classDecl _ name (some parent) methods, _ => by
    rw [stmt]
    simp only [pop_scopes, methodDecls_scopes, define, put_scopes, push_scopes, expr_scopes,
      reportIf_scopes, introduce_scopes]
    rfl

end Analysis
end Scope
end ClassScript
