/-
# Visits of the analysis

The analysis of a program goes through its tree once. A `Context` is what it knows where
it comes to a node: the scopes on its stack, the kinds of the function and the class
around the node, and for each scope the names that the source declares in it. `children`
are the nodes that it comes to from a node, each with its context, and `Visits` are all
nodes that it comes to from the program.

A node with an expression in it is come to once (`Comes.unique`).
-/
import Mathlib.Data.List.Pairwise
import Mathlib.Logic.Relation
import ClassScript.Proofs.Scope.Touch

namespace ClassScript
namespace Scope

/-- A part of a program that the analysis has a function for. -/
inductive Node where
  | expr (e : Expr)
  | exprs (es : List Expr)
  | stmt (s : Stmt)
  | stmts (ss : List Stmt)
  | function (d : FunctionDecl)
  | methods (ds : List FunctionDecl)

namespace Node

/-- The identities of the expressions of a node. -/
def ids : Node → List Nat
  | .expr e => e.ids
  | .exprs es => Expr.idsOf es
  | .stmt s => s.ids
  | .stmts ss => Stmt.idsOf ss
  | .function d => d.ids
  | .methods ds => FunctionDecl.idsOf ds

/-- The identity of a node itself. -/
def ownIds : Node → List Nat
  | .expr e => [e.mark.id]
  | _ => []

def Proper : Node → Prop
  | .expr e => e.Proper
  | .exprs es => Expr.ProperAll es
  | .stmt s => s.Proper
  | .stmts ss => Stmt.ProperAll ss
  | .function d => d.Proper
  | .methods ds => FunctionDecl.ProperAll ds

end Node

/-- The names that statements declare in the scope they stand in. -/
def declaredBy (ss : List Stmt) : List String := ss.filterMap Stmt.declares

/-- What the analysis knows where it comes to a node. -/
structure Context where
  analysis : Analysis := {}
  function : FunctionKind := .none
  kind : ClassKind := .none
  /-- For each scope on the stack, the names that the source declares in it. -/
  declares : List (List String) := []
  /-- The class whose superclass is being looked at. -/
  awaiting : Option String := none

namespace Context

def scopes (c : Context) : List (NameTable Readiness) := c.analysis.scopes

/-- The analysis behind a node. -/
def visit (c : Context) : Node → Analysis
  | .expr e => c.analysis.expr c.kind e
  | .exprs es => c.analysis.exprs c.kind es
  | .stmt s => c.analysis.stmt c.function c.kind s
  | .stmts ss => c.analysis.stmts c.function c.kind ss
  | .function d => c.analysis.function c.function c.kind d
  | .methods ds => c.analysis.methodDecls c.kind ds

/-- The context behind a node. -/
def after (c : Context) (n : Node) : Context := { c with analysis := c.visit n }

/-- The context inside a new scope in which the source declares `names`. -/
def inside (c : Context) (a : Analysis) (names : List String) : Context :=
  { c with analysis := a, declares := names :: c.declares }

/-- The context of the methods of a class without a superclass. -/
def baseClass (c : Context) (name : Declared) : Context :=
  { c.inside ((c.analysis.introduce name).push.define thisName) [thisName] with kind := .base }

/-- The context of the superclass of a class. -/
def superclass (c : Context) (name : Declared) (parent : NameUse) : Context :=
  { c with
    analysis := (c.analysis.introduce name).reportIf (parent.name == name.name) .selfInheritance
      parent.mark.span
    awaiting := some name.name }

/-- The context of the methods of a class with a superclass. -/
def derivedClass (c : Context) (name : Declared) (parent : NameUse) : Context :=
  let a := (c.superclass name parent).visit (.expr parent.expr)
  { (c.inside (a.push.define superName) [superName]).inside
      ((a.push.define superName).push.define thisName) [thisName] with kind := .derived }

/-- The nodes that the analysis comes to from a node, with their contexts. -/
def children (c : Context) : Node → List (Context × Node)
  | .expr (.literal _ _) | .expr (.variable _ _) | .expr (.this _) | .expr (.super _ _) => []
  | .expr (.group _ e) | .expr (.assign _ _ e) | .expr (.unary _ _ e) | .expr (.get _ e _) =>
    [(c, .expr e)]
  | .expr (.binary _ _ l r) | .expr (.logical _ _ l r) =>
    [(c, .expr l), (c.after (.expr l), .expr r)]
  | .expr (.call _ callee args) => [(c, .expr callee), (c.after (.expr callee), .exprs args)]
  | .expr (.set _ e _ v) => [(c, .expr v), (c.after (.expr v), .expr e)]
  | .exprs [] => []
  | .exprs (e :: es) => [(c, .expr e), (c.after (.expr e), .exprs es)]
  | .stmt (.expression _ e) | .stmt (.print _ e) => [(c, .expr e)]
  | .stmt (.var _ _ none) | .stmt (.return _ none) => []
  | .stmt (.var s x (some e)) => [({ c with analysis := c.analysis.declare x s }, .expr e)]
  | .stmt (.block _ body) => [(c.inside c.analysis.push (declaredBy body), .stmts body)]
  | .stmt (.branch _ e yes none) => [(c, .expr e), (c.after (.expr e), .stmt yes)]
  | .stmt (.branch _ e yes (some no)) =>
    [(c, .expr e), (c.after (.expr e), .stmt yes), ((c.after (.expr e)).after (.stmt yes), .stmt no)]
  | .stmt (.loop _ e body) => [(c, .expr e), (c.after (.expr e), .stmt body)]
  | .stmt (.function _ d) =>
    [({ c with analysis := c.analysis.introduce d.declared, function := .function }, .function d)]
  | .stmt (.return s (some e)) =>
    let a := c.analysis.reportIf (c.function == .none) .returnAtTopLevel s
    let a := a.reportIf (c.function == .initializer && true) .returnValueFromInit s
    [({ c with analysis := a }, .expr e)]
  | .stmt (.classDecl _ name none ms) => [(c.baseClass name, .methods ms)]
  | .stmt (.classDecl _ name (some parent) ms) =>
    [(c.superclass name parent, .expr parent.expr), (c.derivedClass name parent, .methods ms)]
  | .stmts [] => []
  | .stmts (s :: ss) => [(c, .stmt s), (c.after (.stmt s), .stmts ss)]
  | .function (.mk _ params body) =>
    [(c.inside (params.foldl Analysis.introduce c.analysis.push)
      (params.map Declared.name ++ declaredBy body), .stmts body)]
  | .methods [] => []
  | .methods (d :: ds) =>
    [({ c with function := Analysis.methodKind d.name }, .function d),
     ({ c with analysis := c.analysis.function (Analysis.methodKind d.name) c.kind d }, .methods ds)]

end Context

/-- The analysis of one node in its context comes to another one. -/
def Comes : Context × Node → Context × Node → Prop :=
  Relation.ReflTransGen fun x y => y ∈ x.1.children x.2

/-- The analysis of a program comes to the node `n` in the context `c`. -/
def Visits (body : List Stmt) (c : Context) (n : Node) : Prop := Comes ({}, .stmts body) (c, n)

/-! ### Each expression once -/

variable {c c' : Context} {n n' : Node}

/-- The identities of a node are its own and those of its children. -/
theorem children_ids (c : Context) (n : Node) :
    (n.ownIds ++ (c.children n).flatMap fun x => x.2.ids).Perm n.ids := by
  refine List.perm_iff_count.mpr fun id => ?_
  cases n with
  | expr e =>
    cases e <;> simp only [Node.ownIds, Context.children, Node.ids, Expr.ids, Expr.mark,
      List.flatMap_cons, List.flatMap_nil, List.append_nil, List.count_append] <;> omega
  | exprs es =>
    cases es <;> simp [Node.ownIds, Context.children, Node.ids]
  | stmt s =>
    cases s with
    | expression | print | block | loop | function =>
      simp [Node.ownIds, Context.children, Node.ids, Stmt.ids]
    | var _ _ init =>
      cases init <;> simp [Node.ownIds, Context.children, Node.ids, Stmt.ids, Expr.optionalIds]
    | «return» _ value =>
      cases value <;> simp [Node.ownIds, Context.children, Node.ids, Stmt.ids, Expr.optionalIds]
    | branch _ _ _ no =>
      cases no <;> simp [Node.ownIds, Context.children, Node.ids, Stmt.ids, Stmt.optionalIds]
    | classDecl _ _ parent =>
      cases parent <;> simp [Node.ownIds, Context.children, Node.ids, Stmt.ids, NameUse.expr,
        Expr.ids]
  | stmts ss =>
    cases ss <;> simp [Node.ownIds, Context.children, Node.ids]
  | function d =>
    cases d
    simp [Node.ownIds, Context.children, Node.ids, FunctionDecl.ids]
  | methods ds =>
    cases ds <;> simp [Node.ownIds, Context.children, Node.ids]

/-- The identities of a child are among those of the node, and not its own. -/
theorem children_nodup (hn : n.ids.Nodup) (h : (c', n') ∈ c.children n) :
    n'.ids.Nodup ∧ ∀ id ∈ n'.ids, id ∈ n.ids ∧ id ∉ n.ownIds := by
  have hperm := children_ids c n
  have hnodup := hperm.nodup_iff.mpr hn
  rw [List.nodup_append] at hnodup
  obtain ⟨-, hflat, hdisj⟩ := hnodup
  have hmem : ∀ id ∈ n'.ids, id ∈ (c.children n).flatMap fun x => x.2.ids := fun id hid =>
    List.mem_flatMap.mpr ⟨(c', n'), h, hid⟩
  refine ⟨(List.nodup_flatMap.mp hflat).1 (c', n') h, fun id hid => ⟨?_, fun hown => ?_⟩⟩
  · exact hperm.mem_iff.mp (List.mem_append_right _ (hmem id hid))
  · exact hdisj id hown id (hmem id hid) rfl

/-- Two children with an identity in common are one. -/
theorem children_eq {x y : Context × Node} {id : Nat} (hn : n.ids.Nodup) (hx : x ∈ c.children n)
    (hy : y ∈ c.children n) (hidx : id ∈ x.2.ids) (hidy : id ∈ y.2.ids) : x = y := by
  have hnodup := (children_ids c n).nodup_iff.mpr hn
  rw [List.nodup_append] at hnodup
  by_contra hne
  have hpair := (List.nodup_flatMap.mp hnodup.2.1).2
  have : Std.Symm (Function.onFun List.Disjoint fun x : Context × Node => x.2.ids) :=
    ⟨fun _ _ h => List.disjoint_symm h⟩
  exact hpair.forall hx hy hne hidx hidy

theorem Comes.ids {x y : Context × Node} (h : Comes x y) (hn : x.2.ids.Nodup) :
    y.2.ids.Nodup ∧ ∀ id ∈ y.2.ids, id ∈ x.2.ids := by
  induction h with
  | refl => exact ⟨hn, fun _ h => h⟩
  | tail _ hmem ih =>
    obtain ⟨hnodup, hsub⟩ := children_nodup ih.1 hmem
    exact ⟨hnodup, fun id hid => ih.2 id (hsub id hid).1⟩

/-- A child is smaller than its node. -/
theorem children_size (h : (c', n') ∈ c.children n) : sizeOf n' < sizeOf n := by
  cases n with
  | expr e =>
    cases e <;> simp [Context.children] at h <;> grind
  | exprs es =>
    cases es <;> simp [Context.children] at h
    grind
  | stmt s =>
    cases s with
    | expression | print | block | loop | function => simp [Context.children] at h; grind
    | var _ _ init => cases init <;> simp [Context.children] at h; grind
    | «return» _ value => cases value <;> simp [Context.children] at h; grind
    | branch _ _ _ no => cases no <;> simp [Context.children] at h <;> grind
    | classDecl _ _ parent =>
      cases parent with
      | none => simp [Context.children] at h; grind
      | some parent =>
        cases parent
        simp [Context.children, NameUse.expr] at h
        grind
  | stmts ss =>
    cases ss <;> simp [Context.children] at h
    grind
  | function d =>
    cases d
    simp [Context.children] at h
    grind
  | methods ds =>
    cases ds <;> simp [Context.children] at h
    grind

theorem Comes.size {x y : Context × Node} (h : Comes x y) : sizeOf y.2 ≤ sizeOf x.2 := by
  induction h with
  | refl => exact Nat.le_refl _
  | tail _ hmem ih => exact Nat.le_trans (Nat.le_of_lt (children_size hmem)) ih

/-- **A node with an expression in it is come to once:** the identity of the expression gives its
context away. -/
theorem Comes.unique {x : Context × Node} {id : Nat} (h : Comes x (c, n)) (h' : Comes x (c', n))
    (hn : x.2.ids.Nodup) (hid : id ∈ n.ids) : c = c' := by
  -- a node does not come again below itself
  have hbelow : ∀ {k k' : Context} {y : Context × Node}, y ∈ k.children n → ¬ Comes y (k', n) := by
    intro k k' y hy hcome
    have hle : sizeOf n ≤ sizeOf y.2 := hcome.size
    have hlt := children_size hy
    omega
  revert hn
  induction h using Relation.ReflTransGen.head_induction_on with
  | refl =>
    intro _
    rcases h'.cases_head with heq | ⟨y, hy, hcome⟩
    · exact (Prod.mk.inj heq).1
    · exact absurd hcome (hbelow hy)
  | @head x y hy hcome ih =>
    intro hn
    rcases h'.cases_head with rfl | ⟨z, hz, hcome'⟩
    · exact absurd hcome (hbelow hy)
    · have hnodup : ∀ {z}, z ∈ x.1.children x.2 → z.2.ids.Nodup := fun hz =>
        (children_nodup hn hz).1
      have hy' := (Comes.ids hcome (hnodup hy)).2 id hid
      have hz' := (Comes.ids hcome' (hnodup hz)).2 id hid
      obtain rfl := children_eq hn hy hz hy' hz'
      exact ih hcome' (hnodup hy)

end Scope
end ClassScript
