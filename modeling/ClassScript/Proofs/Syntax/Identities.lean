/-
# Identities of a tree

The identities that the expressions of a tree carry, in a list (`Expr.ids`,
`Stmt.ids`), and what it means that a stretch of identities holds them all, each
once (`Fresh`).

Key lemmas: `Fresh.append`, which puts neighbouring stretches together, and
`Fresh.perm`: the order does not matter.
-/
import Mathlib.Data.List.Nodup
import ClassScript.Syntax.Tree

namespace ClassScript

mutual

/-- The identities of an expression and of all its parts. -/
def Expr.ids : Expr → List Nat
  | .literal m _ | .variable m _ | .this m | .super m _ => [m.id]
  | .group m e | .assign m _ e | .unary m _ e | .get m e _ => e.ids ++ [m.id]
  | .binary m _ l r | .logical m _ l r => l.ids ++ r.ids ++ [m.id]
  | .call m callee args => callee.ids ++ Expr.idsOf args ++ [m.id]
  | .set m e _ v => e.ids ++ v.ids ++ [m.id]

/-- The identities of all expressions of a list. -/
def Expr.idsOf : List Expr → List Nat
  | [] => []
  | e :: es => e.ids ++ Expr.idsOf es

end

/-- The identities of an expression that may be missing. -/
def Expr.optionalIds : Option Expr → List Nat
  | none => []
  | some e => e.ids

mutual

/-- The identities of all expressions of a statement. -/
def Stmt.ids : Stmt → List Nat
  | .expression _ e | .print _ e => e.ids
  | .var _ _ init => Expr.optionalIds init
  | .block _ body => Stmt.idsOf body
  | .branch _ c yes no => c.ids ++ yes.ids ++ Stmt.optionalIds no
  | .loop _ c body => c.ids ++ body.ids
  | .function _ d => d.ids
  | .return _ value => Expr.optionalIds value
  | .classDecl _ _ none methods => FunctionDecl.idsOf methods
  | .classDecl _ _ (some parent) methods => parent.mark.id :: FunctionDecl.idsOf methods

/-- The identities of all expressions of a list of statements. -/
def Stmt.idsOf : List Stmt → List Nat
  | [] => []
  | s :: ss => s.ids ++ Stmt.idsOf ss

/-- The identities of a statement that may be missing. -/
def Stmt.optionalIds : Option Stmt → List Nat
  | none => []
  | some s => s.ids

/-- The identities of all expressions of a function. -/
def FunctionDecl.ids : FunctionDecl → List Nat
  | .mk _ _ body => Stmt.idsOf body

/-- The identities of all expressions of a list of functions. -/
def FunctionDecl.idsOf : List FunctionDecl → List Nat
  | [] => []
  | d :: ds => d.ids ++ FunctionDecl.idsOf ds

end

@[simp] theorem Expr.idsOf_eq_flatMap : ∀ es : List Expr, Expr.idsOf es = es.flatMap Expr.ids
  | [] => rfl
  | e :: es => by simp [Expr.idsOf, Expr.idsOf_eq_flatMap es]

@[simp] theorem Stmt.idsOf_eq_flatMap : ∀ ss : List Stmt, Stmt.idsOf ss = ss.flatMap Stmt.ids
  | [] => rfl
  | s :: ss => by simp [Stmt.idsOf, Stmt.idsOf_eq_flatMap ss]

@[simp] theorem FunctionDecl.idsOf_eq_flatMap : ∀ ds : List FunctionDecl,
    FunctionDecl.idsOf ds = ds.flatMap FunctionDecl.ids
  | [] => rfl
  | d :: ds => by simp [FunctionDecl.idsOf, FunctionDecl.idsOf_eq_flatMap ds]

/-- A `for` statement holds the expressions of its parts and no others. -/
theorem Stmt.ids_forLoop (span : Span) (init : Option Stmt) (condition : Expr)
    (increment : Option Expr) (body : Stmt) :
    (Stmt.forLoop span init condition increment body).ids =
      Stmt.optionalIds init ++ (condition.ids ++ (body.ids ++ Expr.optionalIds increment)) := by
  cases init <;> cases increment <;>
    simp [Stmt.forLoop, Stmt.ids, Stmt.optionalIds, Expr.optionalIds]

/-- The identities `ids` are different and lie from `lo` on and below `hi`. -/
structure Fresh (lo hi : Nat) (ids : List Nat) : Prop where
  le : lo ≤ hi
  nodup : ids.Nodup
  mem : ∀ i ∈ ids, lo ≤ i ∧ i < hi

namespace Fresh

variable {lo mid hi : Nat} {xs ys : List Nat}

theorem nil (h : lo ≤ hi) : Fresh lo hi [] := ⟨h, List.nodup_nil, by simp⟩

theorem single (lo : Nat) : Fresh lo (lo + 1) [lo] := ⟨by omega, List.nodup_singleton lo, by simp⟩

/-- Identities of two neighbouring stretches are different. -/
theorem append (hx : Fresh lo mid xs) (hy : Fresh mid hi ys) : Fresh lo hi (xs ++ ys) := by
  refine ⟨Nat.le_trans hx.le hy.le, ?_, ?_⟩
  · rw [List.nodup_append]
    refine ⟨hx.nodup, hy.nodup, ?_⟩
    intro i hi j hj hij
    have h1 := (hx.mem i hi).2
    have h2 := (hy.mem j hj).1
    omega
  · intro i hi
    rcases List.mem_append.mp hi with h | h
    · have := hx.mem i h
      exact ⟨this.1, Nat.lt_of_lt_of_le this.2 hy.le⟩
    · have := hy.mem i h
      exact ⟨Nat.le_trans hx.le this.1, this.2⟩

theorem perm (hx : Fresh lo hi xs) (h : xs.Perm ys) : Fresh lo hi ys :=
  ⟨hx.le, h.nodup_iff.mp hx.nodup, fun i hi => hx.mem i (h.mem_iff.mpr hi)⟩

/-- Identities may go unused. -/
theorem sublist (hx : Fresh lo hi xs) (h : ys.Sublist xs) : Fresh lo hi ys :=
  ⟨hx.le, hx.nodup.sublist h, fun i hi => hx.mem i (h.subset hi)⟩

end Fresh
end ClassScript
