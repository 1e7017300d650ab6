/-
# Variants of a program

A variant of a program has the same tree but for the spans of its text and for one name,
which has another one in its place wherever it means certain local variables. `Like`
relates a tree and its variant node by node. Which local variables are meant is told by
marks: each local scope around a node has one, the innermost scope first, and a reference
is changed if the scope that the analysis has bound it to is marked.

Moving a text to another place changes the spans alone (`mapSpans`, `like_mapSpans`).

Key definitions: `Variation`, `Like`.
-/
import ClassScript.Proofs.Scope.Visit

namespace ClassScript

/-! ### Spans of a tree -/

def Mark.mapSpan (g : Span → Span) (m : Mark) : Mark := ⟨m.id, g m.span⟩

def Declared.mapSpan (g : Span → Span) (d : Declared) : Declared := ⟨d.name, g d.span⟩

def NameUse.mapSpan (g : Span → Span) (u : NameUse) : NameUse := ⟨u.mark.mapSpan g, u.name⟩

mutual

/-- The expression with all spans changed. -/
def Expr.mapSpans (g : Span → Span) : Expr → Expr
  | .literal m v => .literal (m.mapSpan g) v
  | .group m e => .group (m.mapSpan g) (e.mapSpans g)
  | .variable m x => .variable (m.mapSpan g) x
  | .assign m x e => .assign (m.mapSpan g) x (e.mapSpans g)
  | .unary m op e => .unary (m.mapSpan g) op (e.mapSpans g)
  | .binary m op l r => .binary (m.mapSpan g) op (l.mapSpans g) (r.mapSpans g)
  | .logical m op l r => .logical (m.mapSpan g) op (l.mapSpans g) (r.mapSpans g)
  | .call m callee args => .call (m.mapSpan g) (callee.mapSpans g) (Expr.mapSpansOf g args)
  | .get m e x => .get (m.mapSpan g) (e.mapSpans g) x
  | .set m e x v => .set (m.mapSpan g) (e.mapSpans g) x (v.mapSpans g)
  | .this m => .this (m.mapSpan g)
  | .super m x => .super (m.mapSpan g) x

def Expr.mapSpansOf (g : Span → Span) : List Expr → List Expr
  | [] => []
  | e :: es => e.mapSpans g :: Expr.mapSpansOf g es

end

mutual

/-- The statement with all spans changed. -/
def Stmt.mapSpans (g : Span → Span) : Stmt → Stmt
  | .expression s e => .expression (g s) (e.mapSpans g)
  | .print s e => .print (g s) (e.mapSpans g)
  | .var s x init => .var (g s) x (init.map (Expr.mapSpans g))
  | .block s body => .block (g s) (Stmt.mapSpansOf g body)
  | .branch s c yes no => .branch (g s) (c.mapSpans g) (yes.mapSpans g) (Stmt.optionalMapSpans g no)
  | .loop s c body => .loop (g s) (c.mapSpans g) (body.mapSpans g)
  | .function s d => .function (g s) (d.mapSpans g)
  | .return s value => .return (g s) (value.map (Expr.mapSpans g))
  | .classDecl s name parent methods =>
    .classDecl (g s) (name.mapSpan g) (parent.map (NameUse.mapSpan g))
      (FunctionDecl.mapSpansOf g methods)

def Stmt.mapSpansOf (g : Span → Span) : List Stmt → List Stmt
  | [] => []
  | s :: ss => s.mapSpans g :: Stmt.mapSpansOf g ss

def Stmt.optionalMapSpans (g : Span → Span) : Option Stmt → Option Stmt
  | none => none
  | some s => some (s.mapSpans g)

def FunctionDecl.mapSpans (g : Span → Span) : FunctionDecl → FunctionDecl
  | .mk d params body => .mk (d.mapSpan g) (params.map (Declared.mapSpan g)) (Stmt.mapSpansOf g body)

def FunctionDecl.mapSpansOf (g : Span → Span) : List FunctionDecl → List FunctionDecl
  | [] => []
  | d :: ds => d.mapSpans g :: FunctionDecl.mapSpansOf g ds

end

theorem Expr.mapSpansOf_eq_map (g : Span → Span) (es : List Expr) :
    Expr.mapSpansOf g es = es.map (Expr.mapSpans g) := by
  induction es with
  | nil => rfl
  | cons e es ih => rw [Expr.mapSpansOf, ih, List.map_cons]

theorem FunctionDecl.mapSpansOf_eq_map (g : Span → Span) (ds : List FunctionDecl) :
    FunctionDecl.mapSpansOf g ds = ds.map (FunctionDecl.mapSpans g) := by
  induction ds with
  | nil => rfl
  | cons d ds ih => rw [FunctionDecl.mapSpansOf, ih, List.map_cons]

theorem Stmt.mapSpansOf_eq_map (g : Span → Span) (ss : List Stmt) :
    Stmt.mapSpansOf g ss = ss.map (Stmt.mapSpans g) := by
  induction ss with
  | nil => rfl
  | cons s ss ih => rw [Stmt.mapSpansOf, ih, List.map_cons]

theorem Expr.span_mapSpans (g : Span → Span) (e : Expr) : (e.mapSpans g).span = g e.span := by
  cases e <;> rfl

theorem Stmt.span_mapSpans (g : Span → Span) (s : Stmt) : (s.mapSpans g).span = g s.span := by
  cases s <;> rfl

theorem eq_map_of_forall₂ {α β : Type} {h : α → β} {l : List α} {l' : List β}
    (hl : List.Forall₂ (fun a b => b = h a) l l') : l' = l.map h := by
  induction hl with
  | nil => rfl
  | cons ha _ ih => rw [ha, ih, List.map_cons]

theorem eq_map_of_rel {α β : Type} {h : α → β} {o : Option α} {o' : Option β}
    (ho : Option.Rel (fun a b => b = h a) o o') : o' = o.map h := by
  cases ho with
  | none => rfl
  | some ha => rw [ha, Option.map_some]

mutual

/-- All spans of an expression. -/
def Expr.spans : Expr → List Span
  | .literal m _ | .variable m _ | .this m | .super m _ => [m.span]
  | .group m e | .assign m _ e | .unary m _ e | .get m e _ => m.span :: e.spans
  | .binary m _ l r | .logical m _ l r => m.span :: (l.spans ++ r.spans)
  | .call m callee args => m.span :: (callee.spans ++ Expr.spansOf args)
  | .set m e _ v => m.span :: (e.spans ++ v.spans)

def Expr.spansOf : List Expr → List Span
  | [] => []
  | e :: es => e.spans ++ Expr.spansOf es

end

mutual

/-- All spans of a statement. -/
def Stmt.spans : Stmt → List Span
  | .expression s e | .print s e => s :: e.spans
  | .var s _ none | .return s none => [s]
  | .var s _ (some e) | .return s (some e) => s :: e.spans
  | .block s body => s :: Stmt.spansOf body
  | .branch s c yes none => s :: (c.spans ++ yes.spans)
  | .branch s c yes (some no) => s :: (c.spans ++ yes.spans ++ no.spans)
  | .loop s c body => s :: (c.spans ++ body.spans)
  | .function s d => s :: d.spans
  | .classDecl s name none methods => s :: name.span :: FunctionDecl.spansOf methods
  | .classDecl s name (some parent) methods =>
    s :: name.span :: parent.mark.span :: FunctionDecl.spansOf methods

def Stmt.spansOf : List Stmt → List Span
  | [] => []
  | s :: ss => s.spans ++ Stmt.spansOf ss

def FunctionDecl.spans : FunctionDecl → List Span
  | .mk d params body => d.span :: (params.map Declared.span ++ Stmt.spansOf body)

def FunctionDecl.spansOf : List FunctionDecl → List Span
  | [] => []
  | d :: ds => d.spans ++ FunctionDecl.spansOf ds

end

namespace Scope.Node

def mapSpans (g : Span → Span) : Node → Node
  | .expr e => .expr (e.mapSpans g)
  | .exprs es => .exprs (Expr.mapSpansOf g es)
  | .stmt s => .stmt (s.mapSpans g)
  | .stmts ss => .stmts (Stmt.mapSpansOf g ss)
  | .function d => .function (d.mapSpans g)
  | .methods ds => .methods (FunctionDecl.mapSpansOf g ds)

def spans : Node → List Span
  | .expr e => e.spans
  | .exprs es => Expr.spansOf es
  | .stmt s => s.spans
  | .stmts ss => Stmt.spansOf ss
  | .function d => d.spans
  | .methods ds => FunctionDecl.spansOf ds

end Scope.Node

/-! ### Variants -/

/-- Where code comes from: from a program that was run before, or from the one that has a variant. -/
inductive Origin where
  | earlier | here

/-- How a variant of a program differs from it. -/
structure Variation where
  /-- The depths that the analysis found. -/
  depths : Depths
  /-- The expressions that they were found for. -/
  known : Nat → Prop
  /-- A name and the one that it is changed to, if any name is changed. -/
  change : Option (String × String)
  /-- The spans that spans may have become. -/
  spans : Origin → Span → Span → Prop
  proper : ∀ x y, change = some (x, y) → ProperName x ∧ ProperName y

/-- Whether the scope at a depth is marked, where the scopes have the marks `M`. A global name is in
no scope. -/
def target (M : List Bool) (depth : Option Nat) : Bool := (depth.bind (M[·]?)).getD false

namespace Variation

/-- A name in the variant, where the scope of what it means is marked or not. -/
def rename (v : Variation) (marked : Bool) (z : String) : String :=
  match v.change with
  | some (x, y) => if marked ∧ z = x then y else z
  | none => z

/-- The name is not the new one. -/
def Free (v : Variation) (z : String) : Prop := ∀ x y, v.change = some (x, y) → z ≠ y

/-- A name and what it is in the variant. The new name is not there yet: nowhere in the program that
has a variant, and in no marked scope. -/
structure Named (v : Variation) (o : Origin) (marked : Bool) (z z' : String) : Prop where
  eq : z' = v.rename marked z
  free : o = .here ∨ marked = true → v.Free z

/-- The identity of an expression stays. -/
structure Marked (v : Variation) (o : Origin) (m m' : Mark) : Prop where
  id : m'.id = m.id
  span : v.spans o m.span m'.span

/-- A reference by its identity, inside of scopes with the marks `M`. -/
structure Refers (v : Variation) (o : Origin) (M : List Bool) (m m' : Mark) (z z' : String) : Prop
    extends Marked v o m m' where
  known : v.known m.id
  name : v.Named o (target M (v.depths.find? m.id)) z z'

/-- A declaration in a scope that is marked or not. -/
structure Declares (v : Variation) (o : Origin) (marked : Bool) (d d' : Declared) : Prop where
  name : v.Named o marked d.name d'.name
  span : v.spans o d.span d'.span

end Variation

open Scope Variation

/-- A node and its variant, inside of scopes with the marks `M`. Only names of variables and of
parameters are changed: functions and classes keep theirs. -/
inductive Like (v : Variation) (o : Origin) : List Bool → Node → Node → Prop
  | literal {M m m' l} : v.Marked o m m' → Like v o M (.expr (.literal m l)) (.expr (.literal m' l))
  | group {M m m' e e'} : v.Marked o m m' → Like v o M (.expr e) (.expr e') →
      Like v o M (.expr (.group m e)) (.expr (.group m' e'))
  | variable {M m m' z z'} : v.Refers o M m m' z z' →
      Like v o M (.expr (.variable m z)) (.expr (.variable m' z'))
  | assign {M m m' z z' e e'} : v.Refers o M m m' z z' → Like v o M (.expr e) (.expr e') →
      Like v o M (.expr (.assign m z e)) (.expr (.assign m' z' e'))
  | unary {M m m' op e e'} : v.Marked o m m' → Like v o M (.expr e) (.expr e') →
      Like v o M (.expr (.unary m op e)) (.expr (.unary m' op e'))
  | binary {M m m' op l l' r r'} : v.Marked o m m' → Like v o M (.expr l) (.expr l') →
      Like v o M (.expr r) (.expr r') →
      Like v o M (.expr (.binary m op l r)) (.expr (.binary m' op l' r'))
  | logical {M m m' op l l' r r'} : v.Marked o m m' → Like v o M (.expr l) (.expr l') →
      Like v o M (.expr r) (.expr r') →
      Like v o M (.expr (.logical m op l r)) (.expr (.logical m' op l' r'))
  | call {M m m' callee callee' args args'} : v.Marked o m m' →
      Like v o M (.expr callee) (.expr callee') → Like v o M (.exprs args) (.exprs args') →
      Like v o M (.expr (.call m callee args)) (.expr (.call m' callee' args'))
  | get {M m m' e e' z} : v.Marked o m m' → Like v o M (.expr e) (.expr e') →
      Like v o M (.expr (.get m e z)) (.expr (.get m' e' z))
  | set {M m m' e e' z w w'} : v.Marked o m m' → Like v o M (.expr e) (.expr e') →
      Like v o M (.expr w) (.expr w') →
      Like v o M (.expr (.set m e z w)) (.expr (.set m' e' z w'))
  | this {M m m'} : v.Marked o m m' → v.known m.id →
      Like v o M (.expr (.this m)) (.expr (.this m'))
  | super {M m m' z} : v.Marked o m m' → v.known m.id →
      Like v o M (.expr (.super m z)) (.expr (.super m' z))
  | noExprs {M} : Like v o M (.exprs []) (.exprs [])
  | exprs {M e e' es es'} : Like v o M (.expr e) (.expr e') → Like v o M (.exprs es) (.exprs es') →
      Like v o M (.exprs (e :: es)) (.exprs (e' :: es'))
  | expression {M s s' e e'} : v.spans o s s' → Like v o M (.expr e) (.expr e') →
      Like v o M (.stmt (.expression s e)) (.stmt (.expression s' e'))
  | print {M s s' e e'} : v.spans o s s' → Like v o M (.expr e) (.expr e') →
      Like v o M (.stmt (.print s e)) (.stmt (.print s' e'))
  | var {M s s' z z'} : v.spans o s s' → v.Named o (M.headD false) z z' →
      Like v o M (.stmt (.var s z none)) (.stmt (.var s' z' none))
  | varInit {M s s' z z' e e'} : v.spans o s s' → v.Named o (M.headD false) z z' →
      Like v o M (.expr e) (.expr e') →
      Like v o M (.stmt (.var s z (some e))) (.stmt (.var s' z' (some e')))
  | block {M s s' body body'} (b : Bool) : v.spans o s s' →
      Like v o (b :: M) (.stmts body) (.stmts body') →
      Like v o M (.stmt (.block s body)) (.stmt (.block s' body'))
  | branch {M s s' c c' yes yes'} : v.spans o s s' → Like v o M (.expr c) (.expr c') →
      Like v o M (.stmt yes) (.stmt yes') →
      Like v o M (.stmt (.branch s c yes none)) (.stmt (.branch s' c' yes' none))
  | branchElse {M s s' c c' yes yes' no no'} : v.spans o s s' → Like v o M (.expr c) (.expr c') →
      Like v o M (.stmt yes) (.stmt yes') → Like v o M (.stmt no) (.stmt no') →
      Like v o M (.stmt (.branch s c yes (some no))) (.stmt (.branch s' c' yes' (some no')))
  | loop {M s s' c c' body body'} : v.spans o s s' → Like v o M (.expr c) (.expr c') →
      Like v o M (.stmt body) (.stmt body') →
      Like v o M (.stmt (.loop s c body)) (.stmt (.loop s' c' body'))
  | function {M s s' d d'} : v.spans o s s' → v.Named o (M.headD false) d.name d'.name →
      Like v o M (.function d) (.function d') →
      Like v o M (.stmt (.function s d)) (.stmt (.function s' d'))
  | return {M s s'} : v.spans o s s' →
      Like v o M (.stmt (.return s none)) (.stmt (.return s' none))
  | returnValue {M s s' e e'} : v.spans o s s' → Like v o M (.expr e) (.expr e') →
      Like v o M (.stmt (.return s (some e))) (.stmt (.return s' (some e')))
  | classDecl {M s s' d d' ms ms'} : v.spans o s s' → v.Declares o (M.headD false) d d' →
      d'.name = d.name → Like v o (false :: M) (.methods ms) (.methods ms') →
      Like v o M (.stmt (.classDecl s d none ms)) (.stmt (.classDecl s' d' none ms'))
  | derived {M s s' d d' u u' ms ms'} : v.spans o s s' → v.Declares o (M.headD false) d d' →
      d'.name = d.name → Like v o M (.expr u.expr) (.expr u'.expr) →
      Like v o (false :: false :: M) (.methods ms) (.methods ms') →
      Like v o M (.stmt (.classDecl s d (some u) ms)) (.stmt (.classDecl s' d' (some u') ms'))
  | noStmts {M} : Like v o M (.stmts []) (.stmts [])
  | stmts {M s s' ss ss'} : Like v o M (.stmt s) (.stmt s') → Like v o M (.stmts ss) (.stmts ss') →
      Like v o M (.stmts (s :: ss)) (.stmts (s' :: ss'))
  | code {M d d' params params' body body'} (b : Bool) : d'.name = d.name → v.spans o d.span d'.span →
      List.Forall₂ (v.Declares o b) params params' →
      Like v o (b :: M) (.stmts body) (.stmts body') →
      Like v o M (.function (.mk d params body)) (.function (.mk d' params' body'))
  | noMethods {M} : Like v o M (.methods []) (.methods [])
  | methods {M d d' ds ds'} : Like v o M (.function d) (.function d') →
      Like v o M (.methods ds) (.methods ds') →
      Like v o M (.methods (d :: ds)) (.methods (d' :: ds'))

namespace Like

variable {v : Variation} {o : Origin} {M : List Bool}

theorem exprSpan {e e' : Expr} (h : Like v o M (.expr e) (.expr e')) : v.spans o e.span e'.span := by
  cases h <;> first | exact Marked.span ‹_› | exact (Refers.toMarked ‹_›).span

theorem stmtSpan {s s' : Stmt} (h : Like v o M (.stmt s) (.stmt s')) : v.spans o s.span s'.span := by
  cases h <;> assumption

end Like

/-! ### Other spans -/

theorem named_none {v : Variation} (h : v.change = none) (o : Origin) (b : Bool) (z : String) :
    v.Named o b z z := by
  refine ⟨?_, fun _ x y hc => ?_⟩
  · rw [rename, h]
  · rw [h] at hc
    cases hc

theorem target_unmarked {M : List Bool} (hM : ∀ b ∈ M, b = false) (depth : Option Nat) :
    target M depth = false := by
  cases depth with
  | none => rfl
  | some d =>
    cases hd : M[d]? with
    | none => simp [target, hd]
    | some b =>
      obtain rfl := hM b (List.mem_of_getElem? hd)
      simp [target, hd]

section

variable {v : Variation} {o : Origin} {g : Span → Span} {M : List Bool}

mutual

theorem Expr.like_mapSpans (hq : ∀ z, v.Named o false z z) (hM : ∀ b ∈ M, b = false) : ∀ {e : Expr},
    (∀ id ∈ e.ids, v.known id) → (∀ s ∈ e.spans, v.spans o s (g s)) →
    Like v o M (.expr e) (.expr (e.mapSpans g))
  | .literal m _, _, hs => .literal ⟨rfl, hs m.span (.head _)⟩
  | .group m e, hi, hs => by
    simp only [Expr.ids, Expr.spans, List.forall_mem_append, List.forall_mem_cons] at hi hs
    exact .group ⟨rfl, hs.1⟩ (Expr.like_mapSpans hq hM hi.1 hs.2)
  | .variable m z, hi, hs =>
    .variable ⟨⟨rfl, hs m.span (.head _)⟩, hi m.id (.head _), target_unmarked hM _ ▸ hq z⟩
  | .assign m z e, hi, hs => by
    simp only [Expr.ids, Expr.spans, List.forall_mem_append, List.forall_mem_cons] at hi hs
    exact .assign ⟨⟨rfl, hs.1⟩, hi.2.1, target_unmarked hM _ ▸ hq z⟩
      (Expr.like_mapSpans hq hM hi.1 hs.2)
  | .unary m _ e, hi, hs => by
    simp only [Expr.ids, Expr.spans, List.forall_mem_append, List.forall_mem_cons] at hi hs
    exact .unary ⟨rfl, hs.1⟩ (Expr.like_mapSpans hq hM hi.1 hs.2)
  | .binary m _ l r, hi, hs => by
    simp only [Expr.ids, Expr.spans, List.forall_mem_append, List.forall_mem_cons] at hi hs
    exact .binary ⟨rfl, hs.1⟩ (Expr.like_mapSpans hq hM hi.1.1 hs.2.1)
      (Expr.like_mapSpans hq hM hi.1.2 hs.2.2)
  | .logical m _ l r, hi, hs => by
    simp only [Expr.ids, Expr.spans, List.forall_mem_append, List.forall_mem_cons] at hi hs
    exact .logical ⟨rfl, hs.1⟩ (Expr.like_mapSpans hq hM hi.1.1 hs.2.1)
      (Expr.like_mapSpans hq hM hi.1.2 hs.2.2)
  | .call m callee args, hi, hs => by
    simp only [Expr.ids, Expr.spans, List.forall_mem_append, List.forall_mem_cons] at hi hs
    exact .call ⟨rfl, hs.1⟩ (Expr.like_mapSpans hq hM hi.1.1 hs.2.1)
      (Expr.like_mapSpansOf hq hM hi.1.2 hs.2.2)
  | .get m e _, hi, hs => by
    simp only [Expr.ids, Expr.spans, List.forall_mem_append, List.forall_mem_cons] at hi hs
    exact .get ⟨rfl, hs.1⟩ (Expr.like_mapSpans hq hM hi.1 hs.2)
  | .set m e _ w, hi, hs => by
    simp only [Expr.ids, Expr.spans, List.forall_mem_append, List.forall_mem_cons] at hi hs
    exact .set ⟨rfl, hs.1⟩ (Expr.like_mapSpans hq hM hi.1.1 hs.2.1)
      (Expr.like_mapSpans hq hM hi.1.2 hs.2.2)
  | .this m, hi, hs => .this ⟨rfl, hs m.span (.head _)⟩ (hi m.id (.head _))
  | .super m _, hi, hs => .super ⟨rfl, hs m.span (.head _)⟩ (hi m.id (.head _))

theorem Expr.like_mapSpansOf (hq : ∀ z, v.Named o false z z) (hM : ∀ b ∈ M, b = false) :
    ∀ {es : List Expr}, (∀ id ∈ Expr.idsOf es, v.known id) →
    (∀ s ∈ Expr.spansOf es, v.spans o s (g s)) →
    Like v o M (.exprs es) (.exprs (Expr.mapSpansOf g es))
  | [], _, _ => .noExprs
  | e :: es, hi, hs => by
    rw [Expr.idsOf, List.forall_mem_append] at hi
    rw [Expr.spansOf, List.forall_mem_append] at hs
    exact .exprs (Expr.like_mapSpans hq hM hi.1 hs.1) (Expr.like_mapSpansOf hq hM hi.2 hs.2)

end

/-- A declaration keeps its name where no scope is marked. -/
theorem named_unmarked (hq : ∀ z, v.Named o false z z) (hM : ∀ b ∈ M, b = false) (z : String) :
    v.Named o (M.headD false) z z := by
  cases M with
  | nil => exact hq z
  | cons b M =>
    obtain rfl := hM b (.head _)
    exact hq z

theorem unmarked_cons (hM : ∀ b ∈ M, b = false) : ∀ b ∈ false :: M, b = false :=
  List.forall_mem_cons.mpr ⟨rfl, hM⟩

mutual

/-- **A statement with other spans is a variant of it,** where no scope is marked. -/
theorem Stmt.like_mapSpans (hq : ∀ z, v.Named o false z z) : ∀ {s : Stmt} {M : List Bool},
    (∀ b ∈ M, b = false) → (∀ id ∈ s.ids, v.known id) → (∀ t ∈ s.spans, v.spans o t (g t)) →
    Like v o M (.stmt s) (.stmt (s.mapSpans g))
  | .expression s e, M, hM, hi, hs => by
    rw [Stmt.spans, List.forall_mem_cons] at hs
    exact .expression hs.1 (Expr.like_mapSpans hq hM hi hs.2)
  | .print s e, M, hM, hi, hs => by
    rw [Stmt.spans, List.forall_mem_cons] at hs
    exact .print hs.1 (Expr.like_mapSpans hq hM hi hs.2)
  | .var s z none, M, hM, _, hs => .var (hs s (.head _)) (named_unmarked hq hM z)
  | .var s z (some e), M, hM, hi, hs => by
    rw [Stmt.spans, List.forall_mem_cons] at hs
    exact .varInit hs.1 (named_unmarked hq hM z) (Expr.like_mapSpans hq hM hi hs.2)
  | .block s body, M, hM, hi, hs => by
    rw [Stmt.spans, List.forall_mem_cons] at hs
    exact .block false hs.1 (Stmt.like_mapSpansOf hq (unmarked_cons hM) hi hs.2)
  | .branch s c yes none, M, hM, hi, hs => by
    rw [Stmt.ids, List.forall_mem_append, List.forall_mem_append] at hi
    rw [Stmt.spans, List.forall_mem_cons, List.forall_mem_append] at hs
    exact .branch hs.1 (Expr.like_mapSpans hq hM hi.1.1 hs.2.1)
      (Stmt.like_mapSpans hq hM hi.1.2 hs.2.2)
  | .branch s c yes (some no), M, hM, hi, hs => by
    rw [Stmt.ids, List.forall_mem_append, List.forall_mem_append] at hi
    rw [Stmt.spans, List.forall_mem_cons, List.forall_mem_append, List.forall_mem_append] at hs
    exact .branchElse hs.1 (Expr.like_mapSpans hq hM hi.1.1 hs.2.1.1)
      (Stmt.like_mapSpans hq hM hi.1.2 hs.2.1.2) (Stmt.like_mapSpans hq hM hi.2 hs.2.2)
  | .loop s c body, M, hM, hi, hs => by
    rw [Stmt.ids, List.forall_mem_append] at hi
    rw [Stmt.spans, List.forall_mem_cons, List.forall_mem_append] at hs
    exact .loop hs.1 (Expr.like_mapSpans hq hM hi.1 hs.2.1) (Stmt.like_mapSpans hq hM hi.2 hs.2.2)
  | .function s (.mk d params body), M, hM, hi, hs => by
    rw [Stmt.spans, List.forall_mem_cons] at hs
    exact .function hs.1 (named_unmarked hq hM d.name) (FunctionDecl.like_mapSpans hq hM hi hs.2)
  | .return s none, M, _, _, hs => .return (hs s (.head _))
  | .return s (some e), M, hM, hi, hs => by
    rw [Stmt.spans, List.forall_mem_cons] at hs
    exact .returnValue hs.1 (Expr.like_mapSpans hq hM hi hs.2)
  | .classDecl s d none ms, M, hM, hi, hs => by
    rw [Stmt.spans, List.forall_mem_cons, List.forall_mem_cons] at hs
    exact .classDecl hs.1 ⟨named_unmarked hq hM d.name, hs.2.1⟩ rfl
      (FunctionDecl.like_mapSpansOf hq (unmarked_cons hM) hi hs.2.2)
  | .classDecl s d (some u) ms, M, hM, hi, hs => by
    rw [Stmt.ids, List.forall_mem_cons] at hi
    rw [Stmt.spans, List.forall_mem_cons, List.forall_mem_cons, List.forall_mem_cons] at hs
    exact .derived hs.1 ⟨named_unmarked hq hM d.name, hs.2.1⟩ rfl
      (.variable ⟨⟨rfl, hs.2.2.1⟩, hi.1, target_unmarked hM _ ▸ hq u.name⟩)
      (FunctionDecl.like_mapSpansOf hq (unmarked_cons (unmarked_cons hM)) hi.2 hs.2.2.2)

theorem Stmt.like_mapSpansOf (hq : ∀ z, v.Named o false z z) : ∀ {ss : List Stmt} {M : List Bool},
    (∀ b ∈ M, b = false) → (∀ id ∈ Stmt.idsOf ss, v.known id) →
    (∀ t ∈ Stmt.spansOf ss, v.spans o t (g t)) →
    Like v o M (.stmts ss) (.stmts (Stmt.mapSpansOf g ss))
  | [], _, _, _, _ => .noStmts
  | s :: ss, M, hM, hi, hs => by
    rw [Stmt.idsOf, List.forall_mem_append] at hi
    rw [Stmt.spansOf, List.forall_mem_append] at hs
    exact .stmts (Stmt.like_mapSpans hq hM hi.1 hs.1) (Stmt.like_mapSpansOf hq hM hi.2 hs.2)

theorem FunctionDecl.like_mapSpans (hq : ∀ z, v.Named o false z z) : ∀ {d : FunctionDecl}
    {M : List Bool}, (∀ b ∈ M, b = false) → (∀ id ∈ d.ids, v.known id) →
    (∀ t ∈ d.spans, v.spans o t (g t)) → Like v o M (.function d) (.function (d.mapSpans g))
  | .mk d params body, M, hM, hi, hs => by
    rw [FunctionDecl.spans, List.forall_mem_cons, List.forall_mem_append] at hs
    have hparams : List.Forall₂ (v.Declares o false) params (params.map (Declared.mapSpan g)) := by
      rw [List.forall₂_map_right_iff]
      exact List.forall₂_same.mpr fun p hp =>
        ⟨hq p.name, hs.2.1 p.span (List.mem_map_of_mem hp)⟩
    exact .code false rfl hs.1 hparams (Stmt.like_mapSpansOf hq (unmarked_cons hM) hi hs.2.2)

theorem FunctionDecl.like_mapSpansOf (hq : ∀ z, v.Named o false z z) : ∀ {ds : List FunctionDecl}
    {M : List Bool}, (∀ b ∈ M, b = false) → (∀ id ∈ FunctionDecl.idsOf ds, v.known id) →
    (∀ t ∈ FunctionDecl.spansOf ds, v.spans o t (g t)) →
    Like v o M (.methods ds) (.methods (FunctionDecl.mapSpansOf g ds))
  | [], _, _, _, _ => .noMethods
  | d :: ds, M, hM, hi, hs => by
    rw [FunctionDecl.idsOf, List.forall_mem_append] at hi
    rw [FunctionDecl.spansOf, List.forall_mem_append] at hs
    exact .methods (FunctionDecl.like_mapSpans hq hM hi.1 hs.1)
      (FunctionDecl.like_mapSpansOf hq hM hi.2 hs.2)

end

end

mutual

theorem Expr.mapSpans_id : ∀ e : Expr, e.mapSpans id = e
  | .literal _ _ | .variable _ _ | .this _ | .super _ _ => rfl
  | .group _ e | .assign _ _ e | .unary _ _ e | .get _ e _ => by
    simp [Expr.mapSpans, Mark.mapSpan, Expr.mapSpans_id e]
  | .binary _ _ l r | .logical _ _ l r | .set _ l _ r => by
    simp [Expr.mapSpans, Mark.mapSpan, Expr.mapSpans_id l, Expr.mapSpans_id r]
  | .call _ callee args => by
    simp [Expr.mapSpans, Mark.mapSpan, Expr.mapSpans_id callee, Expr.mapSpansOf_id args]

theorem Expr.mapSpansOf_id : ∀ es : List Expr, Expr.mapSpansOf id es = es
  | [] => rfl
  | e :: es => by rw [Expr.mapSpansOf, Expr.mapSpans_id e, Expr.mapSpansOf_id es]

end

mutual

theorem Stmt.mapSpans_id : ∀ s : Stmt, s.mapSpans id = s
  | .expression _ e | .print _ e => by rw [Stmt.mapSpans, Expr.mapSpans_id e]; rfl
  | .var _ _ none | .return _ none => rfl
  | .var _ _ (some e) | .return _ (some e) => by simp [Stmt.mapSpans, Expr.mapSpans_id e]
  | .block _ body => by rw [Stmt.mapSpans, Stmt.mapSpansOf_id body]; rfl
  | .branch _ c yes none => by
    rw [Stmt.mapSpans, Expr.mapSpans_id c, Stmt.mapSpans_id yes]
    rfl
  | .branch _ c yes (some no) => by
    rw [Stmt.mapSpans, Expr.mapSpans_id c, Stmt.mapSpans_id yes, Stmt.optionalMapSpans,
      Stmt.mapSpans_id no]
    rfl
  | .loop _ c body => by rw [Stmt.mapSpans, Expr.mapSpans_id c, Stmt.mapSpans_id body]; rfl
  | .function _ d => by rw [Stmt.mapSpans, FunctionDecl.mapSpans_id d]; rfl
  | .classDecl _ d none ms => by rw [Stmt.mapSpans, FunctionDecl.mapSpansOf_id ms]; rfl
  | .classDecl _ d (some u) ms => by rw [Stmt.mapSpans, FunctionDecl.mapSpansOf_id ms]; rfl

theorem Stmt.mapSpansOf_id : ∀ ss : List Stmt, Stmt.mapSpansOf id ss = ss
  | [] => rfl
  | s :: ss => by rw [Stmt.mapSpansOf, Stmt.mapSpans_id s, Stmt.mapSpansOf_id ss]

theorem FunctionDecl.mapSpans_id : ∀ d : FunctionDecl, d.mapSpans id = d
  | .mk d params body => by
    have hparams : params.map (Declared.mapSpan id) = params := List.map_id' params
    rw [FunctionDecl.mapSpans, hparams, Stmt.mapSpansOf_id body]
    rfl

theorem FunctionDecl.mapSpansOf_id : ∀ ds : List FunctionDecl, FunctionDecl.mapSpansOf id ds = ds
  | [] => rfl
  | d :: ds => by rw [FunctionDecl.mapSpansOf, FunctionDecl.mapSpans_id d, FunctionDecl.mapSpansOf_id ds]

end

end ClassScript
