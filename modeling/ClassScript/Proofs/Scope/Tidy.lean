/-
# Tidy contexts

What the scopes of a context are like, at every node of a program without a fault: no
scope holds a name that the source does not declare in it, only the innermost one can
hold a name that is not ready, and inside of a class there is a `this`, with the `super`
of a class just outside of it (`Tidy`). What else a context is like depends on the form of
the node (`Fits`).

Key theorem: `child_fits`, from a node to its children.
-/
import ClassScript.Proofs.Scope.Visit

namespace ClassScript
namespace Scope

open Analysis

/-! ### Depths in a stack of scopes -/

/-- The number of scopes between the innermost one and the nearest that holds a name. -/
def depthIn (scopes : List (NameTable Readiness)) (x : String) : Option Nat :=
  scopes.findIdx? (·.contains x)

theorem depthIn_cons (scope : NameTable Readiness) (scopes : List (NameTable Readiness))
    (x : String) :
    depthIn (scope :: scopes) x =
      if scope.contains x then some 0 else (depthIn scopes x).map (· + 1) := by
  unfold depthIn
  rw [List.findIdx?_cons]

/-- A name that a change of the innermost scope does not touch keeps its depth. -/
theorem depthIn_onInnermost {change : NameTable Readiness → NameTable Readiness} {y : String}
    (h : ∀ scope, (change scope).find? y = scope.find? y) (scopes : List (NameTable Readiness)) :
    depthIn (onInnermost change scopes) y = depthIn scopes y := by
  cases scopes with
  | nil => rfl
  | cons scope rest =>
    have hc : (change scope).contains y = scope.contains y := by
      rw [NameTable.contains, NameTable.contains, h]
    rw [onInnermost, depthIn_cons, depthIn_cons, hc]

/-! ### Tidy contexts -/

/-- No name of the scopes waits for its initializer. -/
def Ready (scopes : List (NameTable Readiness)) : Prop :=
  ∀ scope ∈ scopes, ∀ x, scope.find? x ≠ some .declared

/-- What the scopes of a context are like at every node. -/
structure Tidy (c : Context) : Prop where
  /-- A scope holds no name that the source does not declare in it. -/
  declared : List.Forall₂ (fun scope names => ∀ x, scope.contains x = true → x ∈ names) c.scopes
    c.declares
  ready : Ready c.scopes.tail
  keyword : ∀ scope ∈ c.scopes, ∀ x, ¬ ProperName x → scope.find? x ≠ some .declared
  /-- Inside of a class there is a `this`. -/
  this : c.kind ≠ .none → (depthIn c.scopes thisName).isSome
  /-- Inside of a class with a superclass there is a `super`, just outside of `this`. -/
  super : c.kind = .derived → ∃ d, depthIn c.scopes superName = some (d + 1) ∧
    depthIn c.scopes thisName = some d

/-- The scope that holds `this`. -/
def thisScope : NameTable Readiness := NameTable.empty.put thisName .defined

/-- The scope that holds `super`. -/
def superScope : NameTable Readiness := NameTable.empty.put superName .defined

theorem thisScope_find? (x : String) :
    thisScope.find? x = if thisName = x then some .defined else none := by
  rw [thisScope, NameTable.find?_put, NameTable.find?_empty]

theorem superScope_find? (x : String) :
    superScope.find? x = if superName = x then some .defined else none := by
  rw [superScope, NameTable.find?_put, NameTable.find?_empty]

theorem thisScope_ready (x : String) : thisScope.find? x ≠ some .declared := by
  rw [thisScope_find?]
  split <;> simp

theorem superScope_ready (x : String) : superScope.find? x ≠ some .declared := by
  rw [superScope_find?]
  split <;> simp

/-- What a context is like at a node of a given form. -/
def Fits (c : Context) : Node → Prop
  | .expr e => ∀ x, c.awaiting = some x → ∃ m y, e = .variable m y ∧ y ≠ x
  | .exprs _ => c.awaiting = none
  | .stmt s => c.awaiting = none ∧ Ready c.scopes ∧
      ∀ names ∈ c.declares.head?, ∀ x ∈ s.declares, x ∈ names
  | .stmts ss => c.awaiting = none ∧ Ready c.scopes ∧
      ∀ names ∈ c.declares.head?, ∀ x ∈ declaredBy ss, x ∈ names
  | .function _ => c.awaiting = none ∧ Ready c.scopes
  | .methods _ => c.awaiting = none ∧ Ready c.scopes ∧ c.kind ≠ .none ∧
      ∃ scopes names, c.scopes = thisScope :: scopes ∧ c.declares = [thisName] :: names

variable {c c' : Context} {n n' : Node}

/-! ### Scopes that are ready -/

theorem find?_settled {scope : NameTable Readiness} (x y : String) :
    ((scope.put x .declared).put x .defined).find? y =
      if x = y then some .defined else scope.find? y := by
  rw [NameTable.find?_put, NameTable.find?_put]
  by_cases h : x = y <;> simp [h]

theorem Ready.settled {scopes : List (NameTable Readiness)} (h : Ready scopes) :
    ∀ x, Ready (settled scopes x)
  | none => by cases scopes <;> exact h
  | some x => by
    cases scopes with
    | nil => exact h
    | cons scope rest =>
      intro s hs y
      rcases List.mem_cons.mp hs with rfl | hs
      · rw [find?_settled]
        split
        · simp
        · exact h scope (by simp) y
      · exact h s (by simp [hs]) y

theorem Ready.cons {scope : NameTable Readiness} {scopes : List (NameTable Readiness)}
    (hs : ∀ x, scope.find? x ≠ some .declared) (h : Ready scopes) : Ready (scope :: scopes) := by
  intro s hmem
  rcases List.mem_cons.mp hmem with rfl | hmem
  · exact hs
  · exact h s hmem

/-- The scope of parameters holds these and nothing else. -/
theorem introduceAll_scopes : ∀ (ds : List Declared) {a : Analysis} {scope : NameTable Readiness}
    {rest : List (NameTable Readiness)}, a.scopes = scope :: rest →
    ∃ scope', (ds.foldl introduce a).scopes = scope' :: rest ∧
      ∀ x, scope'.find? x = if x ∈ ds.map Declared.name then some .defined else scope.find? x
  | [], a, scope, rest, h => ⟨scope, h, by simp⟩
  | d :: ds, a, scope, rest, h => by
    have hd : (a.introduce d).scopes =
        (scope.put d.name .declared).put d.name .defined :: rest := by
      rw [introduce_scopes, h]
      rfl
    obtain ⟨scope', hs, hfind⟩ := introduceAll_scopes ds hd
    refine ⟨scope', hs, fun x => ?_⟩
    rw [hfind, find?_settled]
    by_cases hx : x ∈ ds.map Declared.name
    · simp [hx]
    · by_cases hdx : d.name = x
      · simp [hdx]
      · simp [hx, hdx, Ne.symm hdx]

/-- A name that is declared without a fault was not there. -/
theorem contains_of_declare {a : Analysis} {x : String} {span : Span}
    (h : (a.declare x span).errors = []) : ∀ scope ∈ a.scopes.head?, scope.contains x = false := by
  intro scope hs
  have herr : (a.reportIf (a.innermost? x).isSome (.duplicate x) span).errors = [] :=
    (Touches.put _ x .declared).errors_nil h
  cases hsc : a.scopes with
  | nil => simp [hsc] at hs
  | cons scope' rest =>
    obtain rfl : scope' = scope := by simpa [hsc] using hs
    unfold Analysis.reportIf Analysis.innermost? at herr
    rw [hsc] at herr
    dsimp only at herr
    split at herr
    next => simp [Analysis.report] at herr
    next hf => simpa [NameTable.contains] using hf

theorem introduceAll_nodup : ∀ (ds : List Declared) {a : Analysis} {scope : NameTable Readiness}
    {rest : List (NameTable Readiness)}, a.scopes = scope :: rest →
    (ds.foldl introduce a).errors = [] →
    (ds.map Declared.name).Nodup ∧ ∀ d ∈ ds, scope.contains d.name = false
  | [], _, _, _, _, _ => by simp
  | d :: ds, a, scope, rest, h, he => by
    have hd : (a.introduce d).scopes =
        (scope.put d.name .declared).put d.name .defined :: rest := by
      rw [introduce_scopes, h]
      rfl
    obtain ⟨hnodup, hall⟩ := introduceAll_nodup ds hd he
    have hintro : (a.introduce d).errors = [] := (Touches.introduceAll ds _).errors_nil he
    have hnot : scope.contains d.name = false :=
      contains_of_declare ((Touches.put _ d.name .defined).errors_nil hintro) scope (by simp [h])
    have hothers : ∀ e ∈ ds, d.name ≠ e.name ∧ scope.contains e.name = false := by
      intro e hmem
      have := hall e hmem
      rw [NameTable.contains_put, NameTable.contains_put, Bool.or_eq_false_iff,
        Bool.or_eq_false_iff, decide_eq_false_iff_not] at this
      exact ⟨this.1, this.2.2⟩
    refine ⟨?_, ?_⟩
    · rw [List.map_cons, List.nodup_cons]
      refine ⟨fun hmem => ?_, hnodup⟩
      obtain ⟨e, he, hname⟩ := List.mem_map.mp hmem
      exact (hothers e he).1 hname.symm
    · intro e hmem
      rcases List.mem_cons.mp hmem with rfl | hmem
      · exact hnot
      · exact (hothers e hmem).2

/-! ### Tidy children -/

namespace Tidy

theorem congr (h : Tidy c) (hs : c'.scopes = c.scopes) (hd : c'.declares = c.declares)
    (hk : c'.kind = c.kind) : Tidy c' :=
  ⟨hs ▸ hd ▸ h.declared, hs ▸ h.ready, hs ▸ h.keyword, hs ▸ hk ▸ h.this, hs ▸ hk ▸ h.super⟩

/-- A proper name is put into the innermost scope. -/
theorem put {x : String} {change : NameTable Readiness → NameTable Readiness} (h : Tidy c)
    (hx : ProperName x) (hnames : ∀ names ∈ c.declares.head?, x ∈ names)
    (hchange : ∀ scope y, y ≠ x → (change scope).find? y = scope.find? y)
    (hs : c'.scopes = onInnermost change c.scopes) (hd : c'.declares = c.declares)
    (hk : c'.kind = c.kind) : Tidy c' := by
  have hne : ∀ {y}, ¬ ProperName y → y ≠ x := fun hy heq => hy (heq ▸ hx)
  have hdepth : ∀ y, ¬ ProperName y → depthIn c'.scopes y = depthIn c.scopes y := by
    intro y hy
    rw [hs, depthIn_onInnermost fun scope => hchange scope y (hne hy)]
  have hthis : ¬ ProperName thisName := fun h => h.1 rfl
  have hsuper : ¬ ProperName superName := fun h => h.2 rfl
  refine ⟨?_, ?_, ?_, ?_, ?_⟩
  · have hdecl := h.declared
    rw [hs, hd]
    cases hc : c.scopes with
    | nil => rw [hc] at hdecl; exact hdecl
    | cons scope rest =>
      rw [hc] at hdecl
      obtain ⟨names, ds, hhead, htail, hcd⟩ := List.forall₂_cons_left_iff.mp hdecl
      rw [hcd]
      refine .cons (fun y hy => ?_) htail
      by_cases hyx : y = x
      · exact hyx ▸ hnames names (by simp [hcd])
      · refine hhead y ?_
        rw [NameTable.contains, hchange scope y hyx] at hy
        exact hy
  · have hready := h.ready
    rw [hs]
    cases hc : c.scopes <;> rw [hc] at hready <;> exact hready
  · have hkey := h.keyword
    rw [hs]
    cases hc : c.scopes with
    | nil => rw [hc] at hkey; exact hkey
    | cons scope rest =>
      rw [hc] at hkey
      intro s hmem y hy
      rcases List.mem_cons.mp hmem with rfl | hmem
      · rw [hchange scope y (hne hy)]
        exact hkey scope (by simp) y hy
      · exact hkey s (by simp [hmem]) y hy
  · rw [hdepth _ hthis, hk]
    exact h.this
  · rw [hdepth _ hthis, hdepth _ hsuper, hk]
    exact h.super

theorem declare {x : String} {span : Span} (h : Tidy c) (hx : ProperName x)
    (hnames : ∀ names ∈ c.declares.head?, x ∈ names) :
    Tidy { c with analysis := c.analysis.declare x span } :=
  h.put hx hnames (fun scope _ hy => NameTable.find?_put_of_ne scope _ (Ne.symm hy))
    ((declare_scopes _ _ _).trans (put_scopes _ x .declared)) rfl rfl

theorem settle {x : String} (h : Tidy c) (hx : ProperName x)
    (hnames : ∀ names ∈ c.declares.head?, x ∈ names)
    (hs : c'.scopes = settled c.scopes (some x)) (hd : c'.declares = c.declares)
    (hk : c'.kind = c.kind) : Tidy c' :=
  h.put hx hnames (fun scope y hy => by rw [find?_settled, if_neg (Ne.symm hy)]) hs hd hk

/-- A scope without keywords is opened. -/
theorem open_scope {scope : NameTable Readiness} {names : List String} (h : Tidy c)
    (hready : Ready c.scopes) (hsub : ∀ x, scope.contains x = true → x ∈ names)
    (hkey : ∀ x, ¬ ProperName x → scope.contains x = false) (hs : c'.scopes = scope :: c.scopes)
    (hd : c'.declares = names :: c.declares) (hk : c'.kind = c.kind) : Tidy c' := by
  have hthis : scope.contains thisName = false := hkey _ fun h => h.1 rfl
  have hsuper : scope.contains superName = false := hkey _ fun h => h.2 rfl
  refine ⟨?_, ?_, ?_, ?_, ?_⟩
  · rw [hs, hd]
    exact .cons hsub h.declared
  · rw [hs]
    exact hready
  · rw [hs]
    intro s hmem x hx
    rcases List.mem_cons.mp hmem with rfl | hmem
    · have := hkey x hx
      rw [NameTable.contains, Option.isSome_eq_false_iff, Option.isNone_iff_eq_none] at this
      simp [this]
    · exact h.keyword s hmem x hx
  · rw [hs, hk, depthIn_cons, hthis]
    intro hkind
    simpa using h.this hkind
  · rw [hs, hk, depthIn_cons, depthIn_cons, hthis, hsuper]
    intro hkind
    obtain ⟨d, hsup, hth⟩ := h.super hkind
    exact ⟨d + 1, by simp [hsup], by simp [hth]⟩

/-- The scope of `this` in a class without a superclass. -/
theorem open_this (h : Tidy c) (hready : Ready c.scopes) (hs : c'.scopes = thisScope :: c.scopes)
    (hd : c'.declares = [thisName] :: c.declares) (hk : c'.kind = .base) : Tidy c' := by
  refine ⟨?_, ?_, ?_, ?_, ?_⟩
  · rw [hs, hd]
    refine .cons (fun x hx => ?_) h.declared
    rw [NameTable.contains, thisScope_find?] at hx
    by_cases hne : thisName = x <;> simp_all
  · rw [hs]
    exact hready
  · rw [hs]
    intro s hmem x hx
    rcases List.mem_cons.mp hmem with rfl | hmem
    · exact thisScope_ready x
    · exact h.keyword s hmem x hx
  · intro _
    rw [hs, depthIn_cons, NameTable.contains, thisScope_find?]
    simp
  · intro hkind
    rw [hk] at hkind
    cases hkind

/-- The scopes of `super` and `this` in a class with a superclass. -/
theorem open_super (h : Tidy c) (hready : Ready c.scopes)
    (hs : c'.scopes = thisScope :: superScope :: c.scopes)
    (hd : c'.declares = [thisName] :: [superName] :: c.declares) : Tidy c' := by
  have hready' : Ready (superScope :: c.scopes) := hready.cons superScope_ready
  -- the two scopes on top, one after the other, as if the class had no superclass
  let inner : Context := { c' with analysis := { c'.analysis with scopes := superScope :: c.scopes },
                                   declares := [superName] :: c.declares, kind := .none }
  have hinner : Tidy inner := by
    refine ⟨.cons (fun x hx => ?_) h.declared, hready, fun s hmem x hx => ?_, fun h => absurd rfl h,
      fun h => by cases h⟩
    · rw [NameTable.contains, superScope_find?] at hx
      by_cases hne : superName = x <;> simp_all
    · exact (hready' s hmem x)
  have hbase : Tidy { c' with kind := .base } := hinner.open_this hready' hs hd rfl
  refine ⟨hbase.declared, hbase.ready, hbase.keyword, fun _ => hbase.this (by simp),
    fun _ => ⟨0, ?_, ?_⟩⟩
  · rw [hs]
    rfl
  · rw [hs]
    rfl

end Tidy

theorem child_proper (hn : n.Proper) (h : (c', n') ∈ c.children n) : n'.Proper := by
  cases n with
  | expr e =>
    cases e <;> simp only [Context.children, List.mem_cons, Prod.mk.injEq, List.not_mem_nil,
      or_false] at h
    case group | unary | get => exact h.2 ▸ hn
    case assign => exact h.2 ▸ hn.2
    case binary | logical | call =>
      rcases h with ⟨-, rfl⟩ | ⟨-, rfl⟩
      · exact hn.1
      · exact hn.2
    case set =>
      rcases h with ⟨-, rfl⟩ | ⟨-, rfl⟩
      · exact hn.2
      · exact hn.1
  | exprs xs | stmts xs | methods xs =>
    cases xs <;> simp only [Context.children, List.mem_cons, Prod.mk.injEq, List.not_mem_nil,
      or_false] at h
    rcases h with ⟨-, rfl⟩ | ⟨-, rfl⟩
    · exact hn.1
    · exact hn.2
  | stmt s =>
    cases s with
    | expression | print | block | function =>
      simp only [Context.children, List.mem_singleton, Prod.mk.injEq] at h
      exact h.2 ▸ hn
    | var _ _ init =>
      cases init <;> simp only [Context.children, List.mem_singleton, Prod.mk.injEq,
        List.not_mem_nil] at h
      exact h.2 ▸ hn.2
    | «return» _ value =>
      cases value <;> simp only [Context.children, List.mem_singleton, Prod.mk.injEq,
        List.not_mem_nil] at h
      exact h.2 ▸ hn
    | branch _ _ _ no =>
      cases no <;> simp only [Context.children, List.mem_cons, Prod.mk.injEq, List.not_mem_nil,
        or_false] at h
      case none =>
        rcases h with ⟨-, rfl⟩ | ⟨-, rfl⟩
        · exact hn.1
        · exact hn.2.1.2
      case some =>
        rcases h with ⟨-, rfl⟩ | ⟨-, rfl⟩ | ⟨-, rfl⟩
        · exact hn.1
        · exact hn.2.1.2
        · exact hn.2.2.2
    | loop =>
      simp only [Context.children, List.mem_cons, Prod.mk.injEq, List.not_mem_nil, or_false] at h
      rcases h with ⟨-, rfl⟩ | ⟨-, rfl⟩
      · exact hn.1
      · exact hn.2.2
    | classDecl _ _ parent =>
      cases parent <;> simp only [Context.children, List.mem_cons, Prod.mk.injEq, List.not_mem_nil,
        or_false] at h
      case none => exact h.2 ▸ hn.2
      case some =>
        rcases h with ⟨-, rfl⟩ | ⟨-, rfl⟩
        · trivial
        · exact hn.2
  | function d =>
    cases d
    simp only [Context.children, List.mem_singleton, Prod.mk.injEq] at h
    exact h.2 ▸ hn.2.2

/-- The children of an expression stand in the scopes of the expression. -/
theorem expr_child {e : Expr} (h : (c', n') ∈ c.children (.expr e)) :
    c'.scopes = c.scopes ∧ c'.declares = c.declares ∧ c'.kind = c.kind ∧
      c'.awaiting = c.awaiting := by
  cases e <;> simp only [Context.children, List.mem_cons, Prod.mk.injEq, List.not_mem_nil,
    or_false] at h
  case group | unary | get | assign =>
    obtain ⟨rfl, -⟩ := h
    exact ⟨rfl, rfl, rfl, rfl⟩
  case binary | logical | call | set =>
    rcases h with ⟨rfl, -⟩ | ⟨rfl, -⟩
    · exact ⟨rfl, rfl, rfl, rfl⟩
    · exact ⟨expr_scopes _ _ _, rfl, rfl, rfl⟩

theorem fits_expr (h : c.awaiting = none) (e : Expr) : Fits c (.expr e) := by
  intro x hx
  rw [h] at hx
  cases hx

/-- What a context is like passes from an expression to its children. -/
theorem expr_child_fits {e : Expr} (h : (c', n') ∈ c.children (.expr e)) (ht : Tidy c)
    (hf : Fits c (.expr e)) : Tidy c' ∧ Fits c' n' := by
  obtain ⟨hs, hd, hk, ha⟩ := expr_child h
  -- a name that stands for a superclass has no children
  have hnone : c'.awaiting = none := by
    rw [ha]
    cases hc : c.awaiting with
    | none => rfl
    | some x =>
      obtain ⟨m, y, rfl, -⟩ := hf x hc
      simp [Context.children] at h
  refine ⟨ht.congr hs hd hk, ?_⟩
  cases e <;> simp only [Context.children, List.mem_cons, Prod.mk.injEq, List.not_mem_nil,
    or_false] at h
  case group | unary | get | assign => exact h.2 ▸ fits_expr hnone _
  case binary | logical | set => rcases h with ⟨-, rfl⟩ | ⟨-, rfl⟩ <;> exact fits_expr hnone _
  case call =>
    rcases h with ⟨-, rfl⟩ | ⟨-, rfl⟩
    · exact fits_expr hnone _
    · exact hnone

/-- A declaration is of a proper name. -/
theorem proper_declares {s : Stmt} (hp : s.Proper) : ∀ x ∈ s.declares, ProperName x := by
  intro x hx
  cases s with
  | expression | print | block | branch | loop | «return» => cases hx
  | var | classDecl =>
    cases hx
    exact hp.1
  | function _ d =>
    cases d
    cases hx
    exact hp.1

/-- A statement leaves a tidy context behind. -/
theorem stmt_after_tidy {s : Stmt} (ht : Tidy c) (hp : s.Proper) (hf : Fits c (.stmt s)) :
    Tidy (c.after (.stmt s)) ∧ Ready (c.after (.stmt s)).scopes := by
  have hs : (c.after (.stmt s)).scopes = settled c.scopes s.declares :=
    stmt_scopes c.function c.kind c.analysis s hp
  refine ⟨?_, hs ▸ hf.2.1.settled _⟩
  cases hd : s.declares with
  | none => exact ht.congr (by rw [hs, hd]; rfl) rfl rfl
  | some x =>
    exact ht.settle (proper_declares hp x hd) (fun names hn => hf.2.2 names hn x hd)
      (by rw [hs, hd]) rfl rfl

/-- The scopes of a context whose innermost scope is settled with a name. -/
theorem superclass_scopes (c : Context) (name : Declared) (parent : NameUse) :
    (c.superclass name parent).scopes = settled c.scopes (some name.name) :=
  (reportIf_scopes _ _ _ _).trans (introduce_scopes _ _)

theorem baseClass_scopes (c : Context) (name : Declared) :
    (c.baseClass name).scopes = thisScope :: settled c.scopes (some name.name) := by
  show (((c.analysis.introduce name).push).put thisName .defined).scopes = _
  rw [put_scopes, push_scopes, introduce_scopes]
  rfl

theorem derivedClass_scopes (c : Context) (name : Declared) (parent : NameUse) :
    (c.derivedClass name parent).scopes =
      thisScope :: superScope :: settled c.scopes (some name.name) := by
  have hs := superclass_scopes c name parent
  show (((((c.superclass name parent).visit (.expr parent.expr)).push.put superName
    .defined).push).put thisName .defined).scopes = _
  rw [put_scopes, push_scopes, put_scopes, push_scopes, Context.visit, expr_scopes]
  rw [Context.scopes] at hs
  rw [hs]
  rfl

/-- What a context is like passes from a statement to its children. -/
theorem stmt_child_fits {s : Stmt} (h : (c', n') ∈ c.children (.stmt s))
    (he : (c'.visit n').errors = []) (hp : s.Proper) (ht : Tidy c) (hf : Fits c (.stmt s)) :
    Tidy c' ∧ Fits c' n' := by
  obtain ⟨hnone, hready, hnames⟩ := hf
  have hvisit : ∀ e : Expr, Tidy (c.after (.expr e)) ∧ Ready (c.after (.expr e)).scopes := fun e =>
    have hs : (c.after (.expr e)).scopes = c.scopes := expr_scopes _ _ _
    ⟨ht.congr hs rfl rfl, hs ▸ hready⟩
  cases s with
  | expression sp e | print sp e =>
    simp only [Context.children, List.mem_singleton, Prod.mk.injEq] at h
    obtain ⟨rfl, rfl⟩ := h
    exact ⟨ht, fits_expr hnone e⟩
  | var sp x init =>
    cases init <;> simp only [Context.children, List.mem_singleton, Prod.mk.injEq,
      List.not_mem_nil] at h
    obtain ⟨rfl, rfl⟩ := h
    exact ⟨ht.declare hp.1 fun names hn => hnames names hn x rfl, fits_expr hnone _⟩
  | block sp body =>
    simp only [Context.children, List.mem_singleton, Prod.mk.injEq] at h
    obtain ⟨rfl, rfl⟩ := h
    refine ⟨ht.open_scope hready (by simp) (by simp) rfl rfl rfl, hnone, hready.cons (by simp), ?_⟩
    rintro names ⟨rfl⟩ x hx
    exact hx
  | branch sp e yes no =>
    have hyes : yes.declares = none := hp.2.1.1
    have hfit : Fits (c.after (.expr e)) (.stmt yes) :=
      ⟨hnone, (hvisit e).2, by simp [hyes]⟩
    cases no <;> simp only [Context.children, List.mem_cons, Prod.mk.injEq, List.not_mem_nil,
      or_false] at h
    case none =>
      rcases h with ⟨rfl, rfl⟩ | ⟨rfl, rfl⟩
      · exact ⟨ht, fits_expr hnone e⟩
      · exact ⟨(hvisit e).1, hfit⟩
    case some no =>
      rcases h with ⟨rfl, rfl⟩ | ⟨rfl, rfl⟩ | ⟨rfl, rfl⟩
      · exact ⟨ht, fits_expr hnone e⟩
      · exact ⟨(hvisit e).1, hfit⟩
      · obtain ⟨htidy, hr⟩ := stmt_after_tidy (hvisit e).1 hp.2.1.2 hfit
        have hno : no.declares = none := hp.2.2.1
        exact ⟨htidy, hnone, hr, by simp [hno]⟩
  | loop sp e body =>
    have hbody : body.declares = none := hp.2.1
    simp only [Context.children, List.mem_cons, Prod.mk.injEq, List.not_mem_nil, or_false] at h
    rcases h with ⟨rfl, rfl⟩ | ⟨rfl, rfl⟩
    · exact ⟨ht, fits_expr hnone e⟩
    · exact ⟨(hvisit e).1, hnone, (hvisit e).2, by simp [hbody]⟩
  | function sp d =>
    simp only [Context.children, List.mem_singleton, Prod.mk.injEq] at h
    obtain ⟨rfl, rfl⟩ := h
    refine ⟨ht.settle (proper_declares hp d.name rfl) (fun names hn => hnames names hn _ rfl)
      (introduce_scopes _ _) rfl rfl, hnone, ?_⟩
    show Ready (c.analysis.introduce d.declared).scopes
    rw [introduce_scopes]
    exact hready.settled _
  | «return» sp value =>
    cases value <;> simp only [Context.children, List.mem_singleton, Prod.mk.injEq,
      List.not_mem_nil] at h
    obtain ⟨rfl, rfl⟩ := h
    refine ⟨ht.congr ?_ rfl rfl, fits_expr hnone _⟩
    exact (reportIf_scopes _ _ _ _).trans (reportIf_scopes _ _ _ _)
  | classDecl sp name parent ms =>
    have hs := introduce_scopes c.analysis name
    have htidy : Tidy { c with analysis := c.analysis.introduce name } :=
      ht.settle hp.1 (fun names hn => hnames names hn name.name rfl) hs rfl rfl
    have hr : Ready (c.analysis.introduce name).scopes := hs ▸ hready.settled _
    cases parent <;> simp only [Context.children, List.mem_cons, Prod.mk.injEq, List.not_mem_nil,
      or_false] at h
    case none =>
      obtain ⟨rfl, rfl⟩ := h
      have hscopes : (c.baseClass name).scopes = thisScope :: (c.analysis.introduce name).scopes :=
        hs ▸ baseClass_scopes c name
      have hbase : Tidy (c.baseClass name) := htidy.open_this hr hscopes rfl rfl
      exact ⟨hbase, hnone, hscopes ▸ hr.cons thisScope_ready, by simp [Context.baseClass],
        _, _, hscopes, rfl⟩
    case some parent =>
      rcases h with ⟨rfl, rfl⟩ | ⟨rfl, rfl⟩
      · refine ⟨htidy.congr (reportIf_scopes _ _ _ _) rfl rfl, fun x hx => ?_⟩
        cases hx
        refine ⟨_, _, rfl, fun heq => ?_⟩
        -- a class that is its own superclass is a fault
        have herr := (expr_touches c.kind _ parent.expr).errors_nil he
        simp [Context.superclass, heq, reportIf, report] at herr
      · have hscopes : (c.derivedClass name parent).scopes =
            thisScope :: superScope :: (c.analysis.introduce name).scopes :=
          hs ▸ derivedClass_scopes c name parent
        have hderived : Tidy (c.derivedClass name parent) := htidy.open_super hr hscopes rfl
        exact ⟨hderived, hnone, hscopes ▸ (hr.cons superScope_ready).cons thisScope_ready,
          by simp [Context.derivedClass], _, _, hscopes, rfl⟩

/-- What a context is like passes from a node to its children. -/
theorem child_fits (h : (c', n') ∈ c.children n) (he : (c'.visit n').errors = []) (hp : n.Proper)
    (ht : Tidy c) (hf : Fits c n) : Tidy c' ∧ Fits c' n' := by
  cases n with
  | expr e => exact expr_child_fits h ht hf
  | stmt s => exact stmt_child_fits h he hp ht hf
  | exprs es =>
    cases es <;> simp only [Context.children, List.mem_cons, Prod.mk.injEq, List.not_mem_nil,
      or_false] at h
    rcases h with ⟨rfl, rfl⟩ | ⟨rfl, rfl⟩
    · exact ⟨ht, fits_expr hf _⟩
    · exact ⟨ht.congr (expr_scopes _ _ _) rfl rfl, hf⟩
  | stmts ss =>
    cases ss with
    | nil => simp [Context.children] at h
    | cons s ss =>
      simp only [Context.children, List.mem_cons, Prod.mk.injEq, List.not_mem_nil, or_false] at h
      obtain ⟨hnone, hready, hnames⟩ := hf
      have hs : Fits c (.stmt s) := ⟨hnone, hready, fun names hn x hx => hnames names hn x
        (List.mem_filterMap.mpr ⟨s, by simp, hx⟩)⟩
      rcases h with ⟨rfl, rfl⟩ | ⟨rfl, rfl⟩
      · exact ⟨ht, hs⟩
      · obtain ⟨htidy, hr⟩ := stmt_after_tidy ht hp.1 hs
        refine ⟨htidy, hnone, hr, fun names hn x hx => hnames names hn x ?_⟩
        obtain ⟨s', hmem, hx⟩ := List.mem_filterMap.mp hx
        exact List.mem_filterMap.mpr ⟨s', by simp [hmem], hx⟩
  | function d =>
    cases d with
    | mk d params body =>
      simp only [Context.children, List.mem_singleton, Prod.mk.injEq] at h
      obtain ⟨rfl, rfl⟩ := h
      obtain ⟨hnone, hready⟩ := hf
      obtain ⟨scope, hs, hfind⟩ := introduceAll_scopes params (push_scopes c.analysis)
      have hcontains : ∀ x, scope.contains x = true ↔ x ∈ params.map Declared.name := by
        intro x
        rw [NameTable.contains, hfind]
        by_cases hx : x ∈ params.map Declared.name <;> simp [hx]
      refine ⟨ht.open_scope hready (fun x hx => ?_) (fun x hx => ?_) hs rfl rfl, hnone, ?_, ?_⟩
      · exact List.mem_append_left _ ((hcontains x).mp hx)
      · rw [← Bool.not_eq_true, hcontains]
        intro hmem
        obtain ⟨p, hparam, rfl⟩ := List.mem_map.mp hmem
        exact hx (hp.2.1 p hparam)
      · show Ready (params.foldl introduce c.analysis.push).scopes
        rw [hs]
        refine hready.cons fun x => ?_
        rw [hfind]
        split <;> simp
      · rintro names ⟨rfl⟩ x hx
        exact List.mem_append_right _ hx
  | methods ds =>
    cases ds with
    | nil => simp [Context.children] at h
    | cons d ds =>
      simp only [Context.children, List.mem_cons, Prod.mk.injEq, List.not_mem_nil, or_false] at h
      obtain ⟨hnone, hready, hrest⟩ := hf
      rcases h with ⟨rfl, rfl⟩ | ⟨rfl, rfl⟩
      · exact ⟨ht.congr rfl rfl rfl, hnone, hready⟩
      · have hs : ({ c with analysis := c.analysis.function (methodKind d.name) c.kind d } :
            Context).scopes = c.scopes := function_scopes (methodKind d.name) c.kind c.analysis d
        exact ⟨ht.congr hs rfl rfl, hnone, hs ▸ hready, hs ▸ hrest⟩

end Scope
end ClassScript
