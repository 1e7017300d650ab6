/-
# Other identities

A tree with other identities for its expressions (`Expr.mapIds`, `Stmt.mapIds`) has the same
shape, names and spans. What becomes of it depends on the identities that occur in it alone
(`Stmt.mapIdsOf_congr`), so a tree whose identities all stay is the same tree.

Key theorem: `Stmt.mapIdsOf_fixed`.
-/
import ClassScript.Proofs.Syntax.Proper

namespace ClassScript

/-! ### Trees -/

def Mark.mapId (κ : Nat → Nat) (m : Mark) : Mark := ⟨κ m.id, m.span⟩

def NameUse.mapId (κ : Nat → Nat) (u : NameUse) : NameUse := ⟨u.mark.mapId κ, u.name⟩

mutual

/-- The expression with other identities. -/
def Expr.mapIds (κ : Nat → Nat) : Expr → Expr
  | .literal m v => .literal (m.mapId κ) v
  | .group m e => .group (m.mapId κ) (e.mapIds κ)
  | .variable m x => .variable (m.mapId κ) x
  | .assign m x e => .assign (m.mapId κ) x (e.mapIds κ)
  | .unary m op e => .unary (m.mapId κ) op (e.mapIds κ)
  | .binary m op l r => .binary (m.mapId κ) op (l.mapIds κ) (r.mapIds κ)
  | .logical m op l r => .logical (m.mapId κ) op (l.mapIds κ) (r.mapIds κ)
  | .call m callee args => .call (m.mapId κ) (callee.mapIds κ) (Expr.mapIdsOf κ args)
  | .get m e x => .get (m.mapId κ) (e.mapIds κ) x
  | .set m e x v => .set (m.mapId κ) (e.mapIds κ) x (v.mapIds κ)
  | .this m => .this (m.mapId κ)
  | .super m x => .super (m.mapId κ) x

def Expr.mapIdsOf (κ : Nat → Nat) : List Expr → List Expr
  | [] => []
  | e :: es => e.mapIds κ :: Expr.mapIdsOf κ es

end

mutual

/-- The statement with other identities. -/
def Stmt.mapIds (κ : Nat → Nat) : Stmt → Stmt
  | .expression s e => .expression s (e.mapIds κ)
  | .print s e => .print s (e.mapIds κ)
  | .var s x init => .var s x (init.map (Expr.mapIds κ))
  | .block s body => .block s (Stmt.mapIdsOf κ body)
  | .branch s c yes no => .branch s (c.mapIds κ) (yes.mapIds κ) (Stmt.optionalMapIds κ no)
  | .loop s c body => .loop s (c.mapIds κ) (body.mapIds κ)
  | .function s d => .function s (d.mapIds κ)
  | .return s value => .return s (value.map (Expr.mapIds κ))
  | .classDecl s d parent methods =>
    .classDecl s d (parent.map (NameUse.mapId κ)) (FunctionDecl.mapIdsOf κ methods)

def Stmt.mapIdsOf (κ : Nat → Nat) : List Stmt → List Stmt
  | [] => []
  | s :: ss => s.mapIds κ :: Stmt.mapIdsOf κ ss

def Stmt.optionalMapIds (κ : Nat → Nat) : Option Stmt → Option Stmt
  | none => none
  | some s => some (s.mapIds κ)

def FunctionDecl.mapIds (κ : Nat → Nat) : FunctionDecl → FunctionDecl
  | .mk d params body => .mk d params (Stmt.mapIdsOf κ body)

def FunctionDecl.mapIdsOf (κ : Nat → Nat) : List FunctionDecl → List FunctionDecl
  | [] => []
  | d :: ds => d.mapIds κ :: FunctionDecl.mapIdsOf κ ds

end

section

variable (κ : Nat → Nat)

theorem Expr.mapIdsOf_eq_map (es : List Expr) : Expr.mapIdsOf κ es = es.map (Expr.mapIds κ) := by
  induction es with
  | nil => rfl
  | cons e es ih => rw [Expr.mapIdsOf, ih, List.map_cons]

theorem Stmt.mapIdsOf_eq_map (ss : List Stmt) : Stmt.mapIdsOf κ ss = ss.map (Stmt.mapIds κ) := by
  induction ss with
  | nil => rfl
  | cons s ss ih => rw [Stmt.mapIdsOf, ih, List.map_cons]

theorem Stmt.optionalMapIds_eq_map (s : Option Stmt) :
    Stmt.optionalMapIds κ s = s.map (Stmt.mapIds κ) := by
  cases s <;> rfl

theorem FunctionDecl.mapIdsOf_eq_map (ds : List FunctionDecl) :
    FunctionDecl.mapIdsOf κ ds = ds.map (FunctionDecl.mapIds κ) := by
  induction ds with
  | nil => rfl
  | cons d ds ih => rw [FunctionDecl.mapIdsOf, ih, List.map_cons]

@[simp] theorem Expr.span_mapIds (e : Expr) : (e.mapIds κ).span = e.span := by cases e <;> rfl

@[simp] theorem Stmt.span_mapIds (s : Stmt) : (s.mapIds κ).span = s.span := by cases s <;> rfl

@[simp] theorem FunctionDecl.declared_mapIds (d : FunctionDecl) :
    (d.mapIds κ).declared = d.declared := by
  cases d
  rfl

@[simp] theorem FunctionDecl.name_mapIds (d : FunctionDecl) : (d.mapIds κ).name = d.name :=
  congrArg Declared.name (d.declared_mapIds κ)

@[simp] theorem FunctionDecl.params_mapIds (d : FunctionDecl) :
    (d.mapIds κ).params = d.params := by
  cases d
  rfl

@[simp] theorem FunctionDecl.body_mapIds (d : FunctionDecl) :
    (d.mapIds κ).body = Stmt.mapIdsOf κ d.body := by
  cases d
  rfl

/-- A `for` statement has the identities of its parts. -/
theorem Stmt.mapIds_forLoop (span : Span) (init : Option Stmt) (condition : Expr)
    (increment : Option Expr) (body : Stmt) :
    (Stmt.forLoop span init condition increment body).mapIds κ =
      .forLoop span (init.map (Stmt.mapIds κ)) (condition.mapIds κ)
        (increment.map (Expr.mapIds κ)) (body.mapIds κ) := by
  cases init <;> cases increment <;> simp [Stmt.forLoop, Stmt.mapIds, Stmt.mapIdsOf]

end

/-! ### Identities that stay -/

section

variable {κ κ' : Nat → Nat}

mutual

theorem Expr.mapIds_congr : ∀ {e : Expr}, (∀ id ∈ e.ids, κ id = κ' id) → e.mapIds κ = e.mapIds κ'
  | .literal m _, h | .variable m _, h | .this m, h | .super m _, h => by
    simp [Expr.mapIds, Mark.mapId, h m.id (.head _)]
  | .group m e, h | .assign m _ e, h | .unary m _ e, h | .get m e _, h => by
    simp only [Expr.ids, List.forall_mem_append, List.forall_mem_singleton] at h
    simp [Expr.mapIds, Mark.mapId, h.2, Expr.mapIds_congr h.1]
  | .binary m _ l r, h | .logical m _ l r, h | .set m l _ r, h => by
    simp only [Expr.ids, List.forall_mem_append, List.forall_mem_singleton] at h
    simp [Expr.mapIds, Mark.mapId, h.2, Expr.mapIds_congr h.1.1, Expr.mapIds_congr h.1.2]
  | .call m callee args, h => by
    simp only [Expr.ids, List.forall_mem_append, List.forall_mem_singleton] at h
    simp [Expr.mapIds, Mark.mapId, h.2, Expr.mapIds_congr h.1.1, Expr.mapIdsOf_congr h.1.2]

theorem Expr.mapIdsOf_congr : ∀ {es : List Expr}, (∀ id ∈ Expr.idsOf es, κ id = κ' id) →
    Expr.mapIdsOf κ es = Expr.mapIdsOf κ' es
  | [], _ => rfl
  | e :: es, h => by
    rw [Expr.idsOf, List.forall_mem_append] at h
    rw [Expr.mapIdsOf, Expr.mapIdsOf, Expr.mapIds_congr h.1, Expr.mapIdsOf_congr h.2]

end

mutual

theorem Stmt.mapIds_congr : ∀ {s : Stmt}, (∀ id ∈ s.ids, κ id = κ' id) → s.mapIds κ = s.mapIds κ'
  | .expression _ e, h | .print _ e, h => by
    rw [Stmt.mapIds, Stmt.mapIds, Expr.mapIds_congr h]
  | .var _ _ none, _ | .return _ none, _ => rfl
  | .var _ _ (some e), h | .return _ (some e), h => by
    rw [Stmt.mapIds, Stmt.mapIds, Option.map_some, Option.map_some, Expr.mapIds_congr h]
  | .block _ body, h => by rw [Stmt.mapIds, Stmt.mapIds, Stmt.mapIdsOf_congr h]
  | .branch _ c yes no, h => by
    rw [Stmt.ids, List.forall_mem_append, List.forall_mem_append] at h
    rw [Stmt.mapIds, Stmt.mapIds, Expr.mapIds_congr h.1.1, Stmt.mapIds_congr h.1.2,
      Stmt.optionalMapIds_congr h.2]
  | .loop _ c body, h => by
    rw [Stmt.ids, List.forall_mem_append] at h
    rw [Stmt.mapIds, Stmt.mapIds, Expr.mapIds_congr h.1, Stmt.mapIds_congr h.2]
  | .function _ d, h => by rw [Stmt.mapIds, Stmt.mapIds, FunctionDecl.mapIds_congr h]
  | .classDecl _ _ none methods, h => by
    rw [Stmt.mapIds, Stmt.mapIds, FunctionDecl.mapIdsOf_congr h]
    rfl
  | .classDecl _ _ (some parent) methods, h => by
    rw [Stmt.ids, List.forall_mem_cons] at h
    rw [Stmt.mapIds, Stmt.mapIds, FunctionDecl.mapIdsOf_congr h.2, Option.map_some,
      Option.map_some, NameUse.mapId, NameUse.mapId, Mark.mapId, Mark.mapId, h.1]

theorem Stmt.mapIdsOf_congr : ∀ {ss : List Stmt}, (∀ id ∈ Stmt.idsOf ss, κ id = κ' id) →
    Stmt.mapIdsOf κ ss = Stmt.mapIdsOf κ' ss
  | [], _ => rfl
  | s :: ss, h => by
    rw [Stmt.idsOf, List.forall_mem_append] at h
    rw [Stmt.mapIdsOf, Stmt.mapIdsOf, Stmt.mapIds_congr h.1, Stmt.mapIdsOf_congr h.2]

theorem Stmt.optionalMapIds_congr : ∀ {s : Option Stmt},
    (∀ id ∈ Stmt.optionalIds s, κ id = κ' id) →
    Stmt.optionalMapIds κ s = Stmt.optionalMapIds κ' s
  | none, _ => rfl
  | some s, h => by rw [Stmt.optionalMapIds, Stmt.optionalMapIds, Stmt.mapIds_congr h]

theorem FunctionDecl.mapIds_congr : ∀ {d : FunctionDecl}, (∀ id ∈ d.ids, κ id = κ' id) →
    d.mapIds κ = d.mapIds κ'
  | .mk d params body, h => by
    rw [FunctionDecl.mapIds, FunctionDecl.mapIds, Stmt.mapIdsOf_congr h]

theorem FunctionDecl.mapIdsOf_congr : ∀ {ds : List FunctionDecl},
    (∀ id ∈ FunctionDecl.idsOf ds, κ id = κ' id) →
    FunctionDecl.mapIdsOf κ ds = FunctionDecl.mapIdsOf κ' ds
  | [], _ => rfl
  | d :: ds, h => by
    rw [FunctionDecl.idsOf, List.forall_mem_append] at h
    rw [FunctionDecl.mapIdsOf, FunctionDecl.mapIdsOf, FunctionDecl.mapIds_congr h.1,
      FunctionDecl.mapIdsOf_congr h.2]

end

end

mutual

theorem Expr.mapIds_id : ∀ e : Expr, e.mapIds id = e
  | .literal _ _ | .variable _ _ | .this _ | .super _ _ => rfl
  | .group _ e | .assign _ _ e | .unary _ _ e | .get _ e _ => by
    simp [Expr.mapIds, Mark.mapId, Expr.mapIds_id e]
  | .binary _ _ l r | .logical _ _ l r | .set _ l _ r => by
    simp [Expr.mapIds, Mark.mapId, Expr.mapIds_id l, Expr.mapIds_id r]
  | .call _ callee args => by
    simp [Expr.mapIds, Mark.mapId, Expr.mapIds_id callee, Expr.mapIdsOf_id args]

theorem Expr.mapIdsOf_id : ∀ es : List Expr, Expr.mapIdsOf id es = es
  | [] => rfl
  | e :: es => by rw [Expr.mapIdsOf, Expr.mapIds_id e, Expr.mapIdsOf_id es]

end

mutual

theorem Stmt.mapIds_id : ∀ s : Stmt, s.mapIds id = s
  | .expression _ e | .print _ e => by rw [Stmt.mapIds, Expr.mapIds_id e]
  | .var _ _ none | .return _ none => rfl
  | .var _ _ (some e) | .return _ (some e) => by
    rw [Stmt.mapIds, Option.map_some, Expr.mapIds_id e]
  | .block _ body => by rw [Stmt.mapIds, Stmt.mapIdsOf_id body]
  | .branch _ c yes none => by rw [Stmt.mapIds, Expr.mapIds_id c, Stmt.mapIds_id yes]; rfl
  | .branch _ c yes (some no) => by
    rw [Stmt.mapIds, Expr.mapIds_id c, Stmt.mapIds_id yes, Stmt.optionalMapIds, Stmt.mapIds_id no]
  | .loop _ c body => by rw [Stmt.mapIds, Expr.mapIds_id c, Stmt.mapIds_id body]
  | .function _ d => by rw [Stmt.mapIds, FunctionDecl.mapIds_id d]
  | .classDecl _ _ none methods => by rw [Stmt.mapIds, FunctionDecl.mapIdsOf_id methods]; rfl
  | .classDecl _ _ (some parent) methods => by
    rw [Stmt.mapIds, FunctionDecl.mapIdsOf_id methods]
    rfl

theorem Stmt.mapIdsOf_id : ∀ ss : List Stmt, Stmt.mapIdsOf id ss = ss
  | [] => rfl
  | s :: ss => by rw [Stmt.mapIdsOf, Stmt.mapIds_id s, Stmt.mapIdsOf_id ss]

theorem FunctionDecl.mapIds_id : ∀ d : FunctionDecl, d.mapIds id = d
  | .mk d params body => by rw [FunctionDecl.mapIds, Stmt.mapIdsOf_id body]

theorem FunctionDecl.mapIdsOf_id : ∀ ds : List FunctionDecl, FunctionDecl.mapIdsOf id ds = ds
  | [] => rfl
  | d :: ds => by
    rw [FunctionDecl.mapIdsOf, FunctionDecl.mapIds_id d, FunctionDecl.mapIdsOf_id ds]

end

/-- **A tree whose identities stay is the same tree.** -/
theorem Stmt.mapIdsOf_fixed {κ : Nat → Nat} {ss : List Stmt}
    (h : ∀ i ∈ Stmt.idsOf ss, κ i = i) : Stmt.mapIdsOf κ ss = ss := by
  have hid : Stmt.mapIdsOf κ ss = Stmt.mapIdsOf id ss := Stmt.mapIdsOf_congr h
  exact hid.trans (Stmt.mapIdsOf_id ss)

end ClassScript
