/-
# Analysis with other identities

Identities matter to the analysis of scopes only as places of the table of depths. So the analysis
of a tree with other identities, none of which is given to two of the old ones, meets the same
scopes, reports the same errors and records the same depths under the new identities
(`Analysis.Renumbered`).

Key theorem: `Program.ofParse_mapIds`.
-/
import ClassScript.Proofs.Syntax.Renumbering
import ClassScript.Session

namespace ClassScript

/-- The second table has the depths of the first one under the new identities. -/
def Depths.Renumbered (κ : Nat → Nat) (d d' : Depths) : Prop :=
  ∀ id, d'.find? (κ id) = d.find? id

namespace Depths.Renumbered

variable {κ : Nat → Nat} {d d' e e' : Depths}

theorem empty : Depths.Renumbered κ {} {} := fun _ => rfl

theorem record (hκ : Function.Injective κ) (h : Depths.Renumbered κ d d') (id depth : Nat) :
    Depths.Renumbered κ (d.record id depth) (d'.record (κ id) depth) := by
  intro other
  rw [find?_record, find?_record, h other]
  simp only [hκ.eq_iff]

theorem merge (h : Depths.Renumbered κ d d') (he : Depths.Renumbered κ e e') :
    Depths.Renumbered κ (d.merge e) (d'.merge e') := by
  intro id
  rw [find?_merge, find?_merge, h id, he id]

end Depths.Renumbered

namespace Scope

/-- Two analyses that differ in identities only. -/
structure Analysis.Renumbered (κ : Nat → Nat) (a a' : Analysis) : Prop where
  scopes : a'.scopes = a.scopes
  depths : Depths.Renumbered κ a.depths a'.depths
  errors : a'.errors = a.errors

namespace Analysis.Renumbered

variable {κ : Nat → Nat} {a a' : Analysis}

/-! ### Steps of an analysis -/

theorem report (h : Renumbered κ a a') (problem : ScopeProblem) (span : Span) :
    Renumbered κ (a.report problem span) (a'.report problem span) :=
  ⟨h.scopes, h.depths, congrArg (List.cons _) h.errors⟩

theorem reportIf (h : Renumbered κ a a') (found : Bool) (problem : ScopeProblem) (span : Span) :
    Renumbered κ (a.reportIf found problem span) (a'.reportIf found problem span) := by
  cases found
  · exact h
  · exact h.report problem span

theorem push (h : Renumbered κ a a') : Renumbered κ a.push a'.push :=
  ⟨congrArg (List.cons _) h.scopes, h.depths, h.errors⟩

theorem pop (h : Renumbered κ a a') : Renumbered κ a.pop a'.pop :=
  ⟨congrArg List.tail h.scopes, h.depths, h.errors⟩

theorem innermost? (h : Renumbered κ a a') (name : String) :
    a'.innermost? name = a.innermost? name := by
  rw [Analysis.innermost?, Analysis.innermost?, h.scopes]

theorem put (h : Renumbered κ a a') (name : String) (r : Readiness) :
    Renumbered κ (a.put name r) (a'.put name r) := by
  unfold Analysis.put
  rw [h.scopes]
  cases a.scopes with
  | nil => exact h
  | cons scope rest => exact ⟨rfl, h.depths, h.errors⟩

theorem declare (h : Renumbered κ a a') (name : String) (span : Span) :
    Renumbered κ (a.declare name span) (a'.declare name span) := by
  unfold Analysis.declare
  rw [h.innermost?]
  exact (h.reportIf _ _ _).put _ _

theorem introduce (h : Renumbered κ a a') (d : Declared) :
    Renumbered κ (a.introduce d) (a'.introduce d) :=
  (h.declare _ _).put _ _

theorem introduceAll : ∀ {a a' : Analysis} (ds : List Declared), Renumbered κ a a' →
    Renumbered κ (ds.foldl Analysis.introduce a) (ds.foldl Analysis.introduce a')
  | _, _, [], h => h
  | _, _, d :: ds, h => introduceAll ds (h.introduce d)

/-- The one step that looks at identities. -/
theorem refer (hκ : Function.Injective κ) (h : Renumbered κ a a') (id : Nat) (name : String) :
    Renumbered κ (a.refer id name) (a'.refer (κ id) name) := by
  unfold Analysis.refer Analysis.depth?
  rw [h.scopes]
  split
  · exact ⟨rfl, h.depths.record hκ _ _, h.errors⟩
  · exact h

/-! ### Trees -/

mutual

theorem expr (hκ : Function.Injective κ) {k : ClassKind} :
    ∀ {a a' : Analysis} (e : Expr), Renumbered κ a a' →
    Renumbered κ (expr k a e) (Analysis.expr k a' (e.mapIds κ))
  | _, _, .literal _ _, h => h
  | _, _, .group _ e, h | _, _, .unary _ _ e, h | _, _, .get _ e _, h => expr hκ e h
  | _, _, .variable m name, h => by
    rw [Expr.mapIds, Analysis.expr, Analysis.expr, h.innermost?]
    exact (h.reportIf _ _ _).refer hκ _ _
  | _, _, .assign _ _ e, h => (expr hκ e h).refer hκ _ _
  | _, _, .binary _ _ l r, h | _, _, .logical _ _ l r, h => expr hκ r (expr hκ l h)
  | _, _, .call _ callee args, h => exprs hκ args (expr hκ callee h)
  | _, _, .set _ e _ v, h => expr hκ e (expr hκ v h)
  | _, _, .this m, h => by
    rw [Expr.mapIds, Analysis.expr, Analysis.expr]
    split
    · exact h.report _ _
    · exact h.refer hκ _ _
  | _, _, .super m name, h => by
    rw [Expr.mapIds, Analysis.expr, Analysis.expr]
    cases superFault? k with
    | none => exact h.refer hκ _ _
    | some problem => exact (h.report _ _).refer hκ _ _

theorem exprs (hκ : Function.Injective κ) {k : ClassKind} :
    ∀ {a a' : Analysis} (es : List Expr), Renumbered κ a a' →
    Renumbered κ (exprs k a es) (Analysis.exprs k a' (Expr.mapIdsOf κ es))
  | _, _, [], h => h
  | _, _, e :: es, h => exprs hκ es (expr hκ e h)

end

theorem optionalExpr (hκ : Function.Injective κ) {k : ClassKind} (h : Renumbered κ a a')
    (e : Option Expr) :
    Renumbered κ (optionalExpr k a e) (Analysis.optionalExpr k a' (e.map (Expr.mapIds κ))) := by
  cases e with
  | none => exact h
  | some e => exact h.expr hκ e

mutual

theorem stmt (hκ : Function.Injective κ) {f : FunctionKind} {k : ClassKind} :
    ∀ {a a' : Analysis} (s : Stmt),
    Renumbered κ a a' → Renumbered κ (stmt f k a s) (Analysis.stmt f k a' (s.mapIds κ))
  | _, _, .expression _ e, h | _, _, .print _ e, h => h.expr hκ e
  | _, _, .var _ _ init, h => ((h.declare _ _).optionalExpr hκ init).put _ _
  | _, _, .block _ body, h => (stmts hκ body h.push).pop
  | _, _, .branch _ c yes no, h => optionalStmt hκ no (stmt hκ yes (h.expr hκ c))
  | _, _, .loop _ c body, h => stmt hκ body (h.expr hκ c)
  | _, _, .function _ (.mk d params body), h => function hκ (.mk d params body) (h.introduce d)
  | _, _, .return _ value, h => by
    rw [Stmt.mapIds, Analysis.stmt, Analysis.stmt, Option.isSome_map]
    exact ((h.reportIf _ _ _).reportIf _ _ _).optionalExpr hκ value
  | _, _, .classDecl _ name none methods, h =>
    (methodDecls hκ methods ((h.introduce name).push.put _ _)).pop
  | _, _, .classDecl _ name (some parent) methods, h =>
    (methodDecls hκ methods (((((h.introduce name).reportIf _ _ _).expr hκ parent.expr).push.put _
      _).push.put _ _)).pop.pop

theorem stmts (hκ : Function.Injective κ) {f : FunctionKind} {k : ClassKind} :
    ∀ {a a' : Analysis} (ss : List Stmt),
    Renumbered κ a a' → Renumbered κ (stmts f k a ss) (Analysis.stmts f k a' (Stmt.mapIdsOf κ ss))
  | _, _, [], h => h
  | _, _, s :: ss, h => stmts hκ ss (stmt hκ s h)

theorem optionalStmt (hκ : Function.Injective κ) {f : FunctionKind} {k : ClassKind} :
    ∀ {a a' : Analysis} (s : Option Stmt),
    Renumbered κ a a' →
    Renumbered κ (optionalStmt f k a s) (Analysis.optionalStmt f k a' (Stmt.optionalMapIds κ s))
  | _, _, none, h => h
  | _, _, some s, h => stmt hκ s h

theorem function (hκ : Function.Injective κ) {f : FunctionKind} {k : ClassKind} :
    ∀ {a a' : Analysis} (d : FunctionDecl),
    Renumbered κ a a' → Renumbered κ (function f k a d) (Analysis.function f k a' (d.mapIds κ))
  | _, _, .mk _ params body, h => (stmts hκ body (introduceAll params h.push)).pop

theorem methodDecls (hκ : Function.Injective κ) {k : ClassKind} :
    ∀ {a a' : Analysis} (ds : List FunctionDecl),
    Renumbered κ a a' →
    Renumbered κ (methodDecls k a ds) (Analysis.methodDecls k a' (FunctionDecl.mapIdsOf κ ds))
  | _, _, [], h => h
  | _, _, .mk d params body :: ds, h => methodDecls hκ ds (function hκ (.mk d params body) h)

end

end Analysis.Renumbered
end Scope

/-! ### Programs -/

/-- The second program is the first one with other identities. -/
structure Program.Renumbered (κ : Nat → Nat) (p p' : Program) : Prop where
  body : p'.body = Stmt.mapIdsOf κ p.body
  depths : Depths.Renumbered κ p.depths p'.depths

/-- What becomes of two texts that differ in identities only. -/
inductive Program.SameBuild (κ : Nat → Nat) :
    Except BuildError Program → Except BuildError Program → Prop
  | ok {p p' : Program} (h : Program.Renumbered κ p p') : SameBuild κ (.ok p) (.ok p')
  | error (e : BuildError) : SameBuild κ (.error e) (.error e)

/-- **A tree with other identities has the same errors of scopes, or the same depths.** -/
theorem Program.ofTrees_mapIds {κ : Nat → Nat} (hκ : Function.Injective κ) (body : List Stmt) :
    SameBuild κ (Program.ofTrees body) (Program.ofTrees (Stmt.mapIdsOf κ body)) := by
  have h : Scope.Analysis.Renumbered κ (.stmts .none .none {} body)
      (.stmts .none .none {} (Stmt.mapIdsOf κ body)) :=
    .stmts hκ body ⟨rfl, .empty, rfl⟩
  unfold Program.ofTrees Scope.analyze
  dsimp only
  rw [h.errors]
  by_cases herrors : (Scope.Analysis.stmts .none .none {} body).errors.isEmpty = true
  · rw [if_pos herrors, if_pos herrors]
    exact .ok ⟨rfl, h.depths⟩
  · rw [if_neg herrors, if_neg herrors]
    exact .error _

/-- **A parse with other identities has the same errors, or it gives the same program.** -/
theorem Program.ofParse_mapIds {κ : Nat → Nat} (hκ : Function.Injective κ) {p p' : Parse}
    (herrors : p'.errors = p.errors) (htrees : p'.trees = Stmt.mapIdsOf κ p.trees) :
    SameBuild κ (Program.ofParse p) (Program.ofParse p') := by
  unfold Program.ofParse Parse.program
  rw [herrors, htrees]
  by_cases hempty : p.errors.isEmpty = true
  · rw [if_pos hempty, if_pos hempty]
    exact Program.ofTrees_mapIds hκ p.trees
  · rw [if_neg hempty, if_neg hempty]
    exact .error _

end ClassScript
