/-
# The faults of a program

The rules of the language that can be checked without a run, each by what stands around a
part of the program and not by the state of an analysis. `Stmt.sites` lists what the rules
are about, each with its enclosures from the inside out, and `faultsIn` is what the rules
find there. The rule on names goes by scopes: of all declarations in a local scope, those
of a name that is declared before in the same scope are faults.

The analysis keeps a stack of scopes and two kinds while it goes through the program.
`Stands` says what the innermost scope holds in front of a statement, and `Reports` says
which errors are added behind it.

Key definitions: `Stmt.sites`, `faultsIn`, `faultsOf`.
Key theorem: `analysis_reports_faults`.
-/
import ClassScript.Proofs.Scope.Touch
import ClassScript.Session

namespace ClassScript
namespace Scope

/-! ### The rules -/

/-- What a part of a program can stand in. -/
inductive Enclosure where
  /-- A local scope: a block, or a function with its parameters. -/
  | scope
  /-- The initializer of a variable. -/
  | initializer (name : String)
  | function
  | method (name : String)
  | classBody (derived : Bool)
  deriving DecidableEq, Repr

/-- What the rules are about. -/
inductive Subject where
  /-- All declarations in a local scope. -/
  | declarations (ds : List Declared)
  | read (name : String) (span : Span)
  | return (value : Bool) (span : Span)
  | this (span : Span)
  | super (span : Span)
  | inheritance (name parent : String) (span : Span)
  deriving DecidableEq, Repr

/-- The declarations of names that are among `names` or declared before. -/
def repeats (names : List String) : List Declared → List Declared
  | [] => []
  | d :: ds =>
    if d.name ∈ names then d :: repeats (names ++ [d.name]) ds else repeats (names ++ [d.name]) ds

/-- Whether a place is in the initializer of a variable `x` of the innermost local scope. -/
def inInitializerOf (x : String) (path : List Enclosure) : Bool :=
  path.contains .scope && (path.takeWhile (· != .scope)).contains (.initializer x)

/-- A function, with its name if it is a method. -/
def Enclosure.function? : Enclosure → Option (Option String)
  | .function => some none
  | .method name => some (some name)
  | _ => none

/-- A class, with whether it has a superclass. -/
def Enclosure.class? : Enclosure → Option Bool
  | .classBody derived => some derived
  | _ => none

/-- The faults that the rules find in a subject with enclosures `path`, the innermost first. -/
def faultsIn (path : List Enclosure) : Subject → List ScopeError
  | .declarations ds => (repeats [] ds).map fun d => ⟨.duplicate d.name, d.span⟩
  | .read x span =>
    if inInitializerOf x path then [⟨.readInOwnInitializer x, span⟩] else []
  | .return value span =>
    match path.findSome? Enclosure.function? with
    | none => [⟨.returnAtTopLevel, span⟩]
    | some none => []
    | some (some name) => if name = initName ∧ value then [⟨.returnValueFromInit, span⟩] else []
  | .this span =>
    match path.findSome? Enclosure.class? with
    | none => [⟨.thisOutsideClass, span⟩]
    | some _ => []
  | .super span =>
    match path.findSome? Enclosure.class? with
    | none => [⟨.superOutsideClass, span⟩]
    | some false => [⟨.superWithoutSuperclass, span⟩]
    | some true => []
  | .inheritance name parent span => if parent = name then [⟨.selfInheritance, span⟩] else []

end Scope

open Scope

mutual

/-- What the rules are about in an expression. -/
def Expr.subjects : Expr → List Subject
  | .literal _ _ => []
  | .group _ e | .assign _ _ e | .unary _ _ e | .get _ e _ => e.subjects
  | .variable m x => [.read x m.span]
  | .binary _ _ l r | .logical _ _ l r => l.subjects ++ r.subjects
  | .call _ callee args => callee.subjects ++ Expr.subjectsOf args
  | .set _ e _ v => e.subjects ++ v.subjects
  | .this m => [.this m.span]
  | .super m _ => [.super m.span]

def Expr.subjectsOf : List Expr → List Subject
  | [] => []
  | e :: es => e.subjects ++ Expr.subjectsOf es

end

def Expr.optionalSubjects : Option Expr → List Subject
  | none => []
  | some e => e.subjects

/-- A subject and what it stands in. -/
abbrev Site := List Enclosure × Subject

/-- Subjects that stand in the same place. -/
def sitesIn (path : List Enclosure) (subjects : List Subject) : List Site :=
  subjects.map fun x => (path, x)

mutual

/-- The declarations that a statement makes in the scope it stands in. -/
def Stmt.declarations : Stmt → List Declared
  | .var span x _ => [⟨x, span⟩]
  | .function _ d => [d.declared]
  | .classDecl _ d _ _ => [d]
  | .branch _ _ yes no => yes.declarations ++ Stmt.optionalDeclarations no
  | .loop _ _ body => body.declarations
  | .expression _ _ | .print _ _ | .block _ _ | .return _ _ => []

def Stmt.optionalDeclarations : Option Stmt → List Declared
  | none => []
  | some s => s.declarations

end

def Stmt.declarationsOf (ss : List Stmt) : List Declared := ss.flatMap Stmt.declarations

mutual

/-- What the rules are about in a statement, each with all that it stands in. -/
def Stmt.sites (path : List Enclosure) : Stmt → List Site
  | .expression _ e | .print _ e => sitesIn path e.subjects
  | .var _ x init => sitesIn (.initializer x :: path) (Expr.optionalSubjects init)
  | .block _ body =>
    (path, .declarations (Stmt.declarationsOf body)) :: Stmt.sitesOf (.scope :: path) body
  | .branch _ c yes no =>
    sitesIn path c.subjects ++ yes.sites path ++ Stmt.optionalSites path no
  | .loop _ c body => sitesIn path c.subjects ++ body.sites path
  | .function _ d => d.sites (.function :: path)
  | .return span value =>
    (path, .return value.isSome span) :: sitesIn path (Expr.optionalSubjects value)
  | .classDecl _ _ none methods => FunctionDecl.methodSites (.classBody false :: path) methods
  | .classDecl _ d (some parent) methods =>
    sitesIn path [.inheritance d.name parent.name parent.mark.span,
        .read parent.name parent.mark.span]
      ++ FunctionDecl.methodSites (.classBody true :: path) methods

def Stmt.sitesOf (path : List Enclosure) : List Stmt → List Site
  | [] => []
  | s :: ss => s.sites path ++ Stmt.sitesOf path ss

def Stmt.optionalSites (path : List Enclosure) : Option Stmt → List Site
  | none => []
  | some s => s.sites path

/-- The parameters and the body of a function share a scope. -/
def FunctionDecl.sites (path : List Enclosure) : FunctionDecl → List Site
  | .mk _ params body =>
    (path, .declarations (params ++ Stmt.declarationsOf body)) ::
      Stmt.sitesOf (.scope :: path) body

def FunctionDecl.methodSites (path : List Enclosure) : List FunctionDecl → List Site
  | [] => []
  | d :: ds => d.sites (.method d.name :: path) ++ FunctionDecl.methodSites path ds

end

namespace Scope

/-- The faults at some sites. -/
def faultsAt (sites : List Site) : List ScopeError := sites.flatMap fun s => faultsIn s.1 s.2

/-- **The faults of a program.** -/
def faultsOf (program : List Stmt) : List ScopeError := faultsAt (Stmt.sitesOf [] program)

@[simp] theorem faultsAt_cons (s : Site) (sites : List Site) :
    faultsAt (s :: sites) = faultsIn s.1 s.2 ++ faultsAt sites := rfl

@[simp] theorem faultsAt_append (sites sites' : List Site) :
    faultsAt (sites ++ sites') = faultsAt sites ++ faultsAt sites' := List.flatMap_append

@[simp] theorem faultsAt_sitesIn (path : List Enclosure) (subjects : List Subject) :
    faultsAt (sitesIn path subjects) = subjects.flatMap (faultsIn path) :=
  List.flatMap_map _ _ _

namespace Analysis

variable {a a₁ a' : Analysis} {es es' : List ScopeError} {path : List Enclosure}
  {f : FunctionKind} {k : ClassKind} {seen : Option (List String)}

/-! ### Errors that are added -/

/-- From `a` to `a'` the errors `es` were added, in some order. -/
structure Reports (es : List ScopeError) (a a' : Analysis) : Prop where
  errors : a'.errors.Perm (es ++ a.errors)

namespace Reports

theorem refl (a : Analysis) : Reports [] a a := ⟨.refl _⟩

theorem trans (h : Reports es a a₁) (h' : Reports es' a₁ a') : Reports (es ++ es') a a' := by
  have hmoved : (es' ++ (es ++ a.errors)).Perm (es ++ es' ++ a.errors) := by
    rw [← List.append_assoc]
    exact List.perm_append_comm.append_right _
  exact ⟨(h'.errors.trans (h.errors.append_left es')).trans hmoved⟩

theorem perm (h : Reports es a a') (hp : es.Perm es') : Reports es' a a' :=
  ⟨h.errors.trans (hp.append_right _)⟩

/-- Nothing but the scopes and the depths was changed. -/
theorem quiet (h : a'.errors = a.errors) : Reports [] a a' :=
  ⟨by rw [h, List.nil_append]⟩

/-- The last steps were quiet. -/
theorem then_quiet (h : Reports es a a₁) (h' : a'.errors = a₁.errors) : Reports es a a' := by
  have hall := h.trans (.quiet h')
  rwa [List.append_nil] at hall

/-- The first steps were quiet. -/
theorem after_quiet (h : Reports es a₁ a') (h' : a₁.errors = a.errors) : Reports es a a' :=
  (Reports.quiet h').trans h

theorem report (a : Analysis) (problem : ScopeProblem) (span : Span) :
    Reports [⟨problem, span⟩] a (a.report problem span) := ⟨.refl _⟩

theorem reportIf (a : Analysis) (found : Bool) (problem : ScopeProblem) (span : Span) :
    Reports (if found then [⟨problem, span⟩] else []) a (a.reportIf found problem span) := by
  cases found
  · exact .refl a
  · exact .report a problem span

end Reports

@[simp] theorem put_errors (a : Analysis) (x : String) (r : Readiness) :
    (a.put x r).errors = a.errors := by
  unfold put
  split <;> rfl

@[simp] theorem define_errors (a : Analysis) (x : String) : (a.define x).errors = a.errors :=
  put_errors a x .defined

@[simp] theorem refer_errors (a : Analysis) (id : Nat) (x : String) :
    (a.refer id x).errors = a.errors := by
  unfold refer
  split <;> rfl

@[simp] theorem push_errors (a : Analysis) : a.push.errors = a.errors := rfl

@[simp] theorem pop_errors (a : Analysis) : a.pop.errors = a.errors := rfl

/-! ### Expressions -/

/-- The kind of the function that a place is in. -/
def functionAround (path : List Enclosure) : FunctionKind :=
  match path.findSome? Enclosure.function? with
  | none => .none
  | some none => .function
  | some (some name) => methodKind name

/-- The kind of the class that a place is in. -/
def classAround (path : List Enclosure) : ClassKind :=
  match path.findSome? Enclosure.class? with
  | none => .none
  | some false => .base
  | some true => .derived

/-- The innermost scope as an expression finds it: a name is not ready to be read in its own
initializer. -/
def Hides (path : List Enclosure) (a : Analysis) : Prop :=
  ∀ x, (a.innermost? x == some .declared) = inInitializerOf x path

theorem innermost?_congr (h : a'.scopes = a.scopes) (x : String) :
    a'.innermost? x = a.innermost? x := by
  unfold innermost?
  rw [h]

theorem Hides.congr (h : Hides path a) (hs : a'.scopes = a.scopes) : Hides path a' := by
  intro x
  rw [innermost?_congr hs, h x]

mutual

/-- **An expression reports the faults in it.** -/
theorem expr_reports : ∀ {a : Analysis} (e : Expr), Hides path a →
    Reports (e.subjects.flatMap (faultsIn path)) a (a.expr (classAround path) e)
  | a, .literal _ _, _ => .refl a
  | a, .group _ e, h | a, .unary _ _ e, h | a, .get _ e _, h => expr_reports e h
  | a, .variable m x, h => by
    have hread := Reports.reportIf a (inInitializerOf x path) (.readInOwnInitializer x) m.span
    rw [expr, h x]
    simpa [Expr.subjects, faultsIn] using hread.then_quiet (refer_errors _ m.id x)
  | a, .assign m x e, h => (expr_reports e h).then_quiet (refer_errors _ m.id x)
  | a, .binary _ _ l r, h | a, .logical _ _ l r, h => by
    have hboth := (expr_reports l h).trans (expr_reports r (h.congr (expr_scopes _ a l)))
    rwa [← List.flatMap_append] at hboth
  | a, .call _ callee args, h => by
    have hboth := (expr_reports callee h).trans
      (exprs_reports args (h.congr (expr_scopes _ a callee)))
    rwa [← List.flatMap_append] at hboth
  | a, .set _ e _ v, h => by
    -- the value is analysed first
    have hboth := (expr_reports v h).trans (expr_reports e (h.congr (expr_scopes _ a v)))
    rw [Expr.subjects, List.flatMap_append]
    exact hboth.perm List.perm_append_comm
  | a, .this m, _ => by
    have hthis := Reports.report a .thisOutsideClass m.span
    unfold expr classAround Expr.subjects
    rw [List.flatMap_singleton, faultsIn]
    cases path.findSome? Enclosure.class? with
    | none => exact hthis
    | some derived => cases derived <;> exact .quiet (refer_errors a m.id thisName)
  | a, .super m _, _ => by
    unfold expr classAround Expr.subjects
    rw [List.flatMap_singleton, faultsIn]
    cases path.findSome? Enclosure.class? with
    | none => exact (Reports.report a .superOutsideClass m.span).then_quiet (refer_errors _ _ _)
    | some derived =>
      cases derived
      · exact (Reports.report a .superWithoutSuperclass m.span).then_quiet (refer_errors _ _ _)
      · exact .quiet (refer_errors a m.id superName)

theorem exprs_reports : ∀ {a : Analysis} (es : List Expr), Hides path a →
    Reports ((Expr.subjectsOf es).flatMap (faultsIn path)) a (a.exprs (classAround path) es)
  | a, [], _ => .refl a
  | a, e :: es, h => by
    have hboth := (expr_reports e h).trans (exprs_reports es (h.congr (expr_scopes _ a e)))
    rwa [← List.flatMap_append] at hboth

end

theorem optionalExpr_reports {a : Analysis} (h : Hides path a) : ∀ e : Option Expr,
    Reports ((Expr.optionalSubjects e).flatMap (faultsIn path)) a
      (a.optionalExpr (classAround path) e)
  | none => .refl a
  | some e => expr_reports e h

/-! ### Declarations -/

/-- The innermost scope as a statement finds it: there is none at the top level, and a local one
holds the names `seen` that were declared in it so far, all of them ready to be read. -/
inductive Stands : List Enclosure → Option (List String) → Analysis → Prop where
  | top {a : Analysis} (h : a.scopes = []) : Stands [] none a
  | inside {a : Analysis} {path : List Enclosure} {names : List String}
      {scope : NameTable Readiness} {rest : List (NameTable Readiness)}
      (h : a.scopes = scope :: rest)
      (hfind : ∀ x, scope.find? x = if x ∈ names then some .defined else none) :
      Stands (.scope :: path) (some names) a

/-- The names of a scope after some declarations. -/
def extend (seen : Option (List String)) (ds : List Declared) : Option (List String) :=
  seen.map (· ++ ds.map Declared.name)

/-- The errors about declarations in a scope in which some names were seen. -/
def duplicates (seen : Option (List String)) (ds : List Declared) : List ScopeError :=
  match seen with
  | none => []
  | some names => (repeats names ds).map fun d => ⟨.duplicate d.name, d.span⟩

@[simp] theorem extend_nil (seen : Option (List String)) : extend seen [] = seen := by
  cases seen <;> simp [extend]

theorem extend_append (seen : Option (List String)) (ds ds' : List Declared) :
    extend seen (ds ++ ds') = extend (extend seen ds) ds' := by
  cases seen <;> simp [extend]

@[simp] theorem duplicates_nil (seen : Option (List String)) : duplicates seen [] = [] := by
  cases seen <;> rfl

theorem repeats_append : ∀ (ds ds' : List Declared) (names : List String),
    repeats names (ds ++ ds') = repeats names ds ++ repeats (names ++ ds.map Declared.name) ds'
  | [], ds', names => by simp [repeats]
  | d :: ds, ds', names => by
    rw [List.cons_append, repeats, repeats, repeats_append ds ds' (names ++ [d.name]),
      List.append_assoc, List.map_cons, List.singleton_append]
    split <;> rfl

theorem duplicates_append (seen : Option (List String)) (ds ds' : List Declared) :
    duplicates seen (ds ++ ds') = duplicates seen ds ++ duplicates (extend seen ds) ds' := by
  cases seen with
  | none => rfl
  | some names => simp [duplicates, extend, repeats_append]

namespace Stands

theorem congr (h : Stands path seen a) (hs : a'.scopes = a.scopes) : Stands path seen a' := by
  cases h with
  | top h => exact .top (hs.trans h)
  | inside h hfind => exact .inside (hs.trans h) hfind

/-- A new scope is empty. -/
theorem push (a : Analysis) (path : List Enclosure) : Stands (.scope :: path) (some []) a.push :=
  .inside rfl (by simp)

/-- No name is in its own initializer in front of a statement. -/
theorem hides (h : Stands path seen a) : Hides path a := by
  intro x
  cases h with
  | top h => simp [innermost?, h, inInitializerOf]
  | @inside a path names scope rest h hfind =>
    rw [innermost?, h]
    by_cases hx : x ∈ names <;> simp [hfind, hx, inInitializerOf]

/-- **Declaring a name is a fault if it was seen.** -/
theorem declare_reports (h : Stands path seen a) (x : String) (span : Span) :
    Reports (duplicates seen [⟨x, span⟩]) a (a.declare x span) := by
  have hreport := Reports.reportIf a (a.innermost? x).isSome (.duplicate x) span
  refine Reports.then_quiet ?_ (put_errors _ x .declared)
  cases h with
  | top h => simpa [innermost?, h, duplicates] using hreport
  | @inside a path names scope rest h hfind =>
    by_cases hx : x ∈ names
    · simpa [innermost?, h, hfind, hx, duplicates, repeats] using hreport
    · simpa [innermost?, h, hfind, hx, duplicates, repeats] using hreport

/-- A name that is declared in a local scope is not ready to be read, and the others are. -/
theorem declare_hides (h : Stands path seen a) (x : String) (span : Span) :
    Hides (.initializer x :: path) (a.declare x span) := by
  intro y
  rw [innermost?_congr (declare_scopes a x span)]
  cases h with
  | top h => simp [innermost?, put, h, inInitializerOf]
  | @inside a path names scope rest h hfind =>
    rw [put, h]
    by_cases hxy : x = y
    · simp [innermost?, inInitializerOf, hxy]
    · by_cases hy : y ∈ names <;>
        simp [innermost?, NameTable.find?_put, inInitializerOf, hxy, Ne.symm hxy, hfind, hy]

/-- A name that has been declared and defined has been seen. -/
theorem settle (h : Stands path seen a) (d : Declared)
    (hs : a'.scopes = settled a.scopes (some d.name)) : Stands path (extend seen [d]) a' := by
  cases h with
  | top h => exact .top (by rw [hs, h]; rfl)
  | @inside a path names scope rest h hfind =>
    have hscopes : a'.scopes = (scope.put d.name .declared).put d.name .defined :: rest := by
      rw [hs, h]
      rfl
    refine .inside hscopes fun x => ?_
    by_cases hx : d.name = x
    · simp [hx]
    · simp [NameTable.find?_put, hx, Ne.symm hx, hfind]

theorem introduce_reports (h : Stands path seen a) (d : Declared) :
    Reports (duplicates seen [d]) a (a.introduce d) :=
  (h.declare_reports d.name d.span).then_quiet (define_errors _ d.name)

theorem introduce (h : Stands path seen a) (d : Declared) :
    Stands path (extend seen [d]) (a.introduce d) :=
  h.settle d (introduce_scopes a d)

/-- Parameters are declared one after the other. -/
theorem introduceAll : ∀ (ds : List Declared) {a : Analysis} {seen : Option (List String)},
    Stands path seen a →
    Reports (duplicates seen ds) a (ds.foldl Analysis.introduce a) ∧
      Stands path (extend seen ds) (ds.foldl Analysis.introduce a)
  | [], a, seen, h => by simpa using ⟨Reports.refl a, h⟩
  | d :: ds, a, seen, h => by
    obtain ⟨hrest, hstands⟩ := introduceAll ds (h.introduce d)
    have hall := (h.introduce_reports d).trans hrest
    rw [← duplicates_append] at hall
    rw [← extend_append] at hstands
    exact ⟨hall, hstands⟩

end Stands

/-! ### Statements -/

/-- The faults of a `return`, by the kind of the function that it is in. -/
theorem faultsIn_return (value : Bool) (span : Span) : faultsIn path (.return value span) =
    (if functionAround path == .none then [⟨.returnAtTopLevel, span⟩] else []) ++
      if functionAround path == .initializer && value then [⟨.returnValueFromInit, span⟩]
      else [] := by
  unfold functionAround
  rw [faultsIn]
  rcases path.findSome? Enclosure.function? with _ | _ | name
  · rfl
  · rfl
  · by_cases hname : name = initName
    · cases value <;> simp [methodKind, hname]
    · simp [methodKind, hname]

/-- What the analysis of a part of a scope does: it reports the faults at its sites and those of its
declarations, and it has seen these declarations. -/
structure Covers (path : List Enclosure) (seen : Option (List String)) (sites : List Site)
    (ds : List Declared) (a a' : Analysis) : Prop where
  reports : Reports (faultsAt sites ++ duplicates seen ds) a a'
  stands : Stands path (extend seen ds) a'

namespace Covers

variable {sites sites' : List Site} {ds ds' : List Declared}

theorem trans (h : Covers path seen sites ds a a₁)
    (h' : Covers path (extend seen ds) sites' ds' a₁ a') :
    Covers path seen (sites ++ sites') (ds ++ ds') a a' := by
  refine ⟨(h.reports.trans h'.reports).perm ?_, extend_append seen ds ds' ▸ h'.stands⟩
  rw [faultsAt_append, duplicates_append, List.append_assoc, List.append_assoc]
  refine List.Perm.append_left _ ?_
  rw [← List.append_assoc, ← List.append_assoc]
  exact List.perm_append_comm.append_right _

/-- A part that declares nothing. -/
theorem of_reports (h : Stands path seen a) (hs : a'.scopes = a.scopes)
    (hr : Reports (faultsAt sites) a a') : Covers path seen sites [] a a' := by
  refine ⟨?_, ?_⟩
  · rwa [duplicates_nil, List.append_nil]
  · rw [extend_nil]
    exact h.congr hs

/-- A part in front that declares nothing. -/
theorem after (h : Covers path seen sites [] a a₁) (h' : Covers path seen sites' ds a₁ a') :
    Covers path seen (sites ++ sites') ds a a' :=
  h.trans (by rwa [extend_nil])

theorem expr (h : Stands path seen a) (e : Expr) :
    Covers path seen (sitesIn path e.subjects) [] a (a.expr (classAround path) e) :=
  .of_reports h (expr_scopes _ a e) (by simpa using expr_reports e h.hides)

end Covers

/-- The analysis of a class with a superclass, in front of its methods. -/
def superclass (a : Analysis) (d : Declared) (parent : NameUse) : Analysis :=
  ((a.introduce d).reportIf (parent.name == d.name) .selfInheritance parent.mark.span).expr
    .derived parent.expr

/-- The superclass is read outside of the class. -/
theorem Stands.superclass_reports (h : Stands path seen a) (d : Declared) (parent : NameUse) :
    Reports (duplicates seen [d] ++ faultsAt (sitesIn path
      [.inheritance d.name parent.name parent.mark.span, .read parent.name parent.mark.span]))
      a (superclass a d parent) := by
  have hself := Reports.reportIf (a.introduce d) (parent.name == d.name) .selfInheritance
    parent.mark.span
  have hread := expr_reports parent.expr ((h.introduce d).hides.congr
    (reportIf_scopes _ (parent.name == d.name) .selfInheritance parent.mark.span))
  have hfaults : faultsAt (sitesIn path [.inheritance d.name parent.name parent.mark.span,
      .read parent.name parent.mark.span]) =
      (if parent.name == d.name then [⟨.selfInheritance, parent.mark.span⟩] else []) ++
        parent.expr.subjects.flatMap (faultsIn path) := by
    simp [faultsIn, NameUse.expr, Expr.subjects]
  rw [hfaults]
  exact (h.introduce_reports d).trans (hself.trans hread)

mutual

/-- **A statement reports the faults in it.** -/
theorem stmt_covers : ∀ {path : List Enclosure} {seen : Option (List String)} {a : Analysis}
    (s : Stmt), Stands path seen a →
    Covers path seen (s.sites path) s.declarations a
      (a.stmt (functionAround path) (classAround path) s)
  | path, seen, a, .expression _ e, h | path, seen, a, .print _ e, h => .expr h e
  | path, seen, a, .var span x init, h => by
    have hread := optionalExpr_reports (h.declare_hides x span) init
    have hall := ((h.declare_reports x span).trans hread).then_quiet (define_errors _ x)
    refine ⟨hall.perm ?_, h.settle ⟨x, span⟩ ?_⟩
    · rw [Stmt.sites, faultsAt_sitesIn]
      exact List.perm_append_comm
    · rw [stmt, define, put_scopes, optionalExpr_scopes, declare_scopes, put_scopes]
      cases a.scopes <;> rfl
  | path, seen, a, .block _ body, h => by
    have hbody := (stmts_covers body (Stands.push a path)).reports.after_quiet (push_errors a)
    refine .of_reports h ?_ ((hbody.then_quiet (pop_errors _)).perm List.perm_append_comm)
    rw [stmt, pop_scopes, stmts_tail, push_scopes, List.tail_cons]
  | path, seen, a, .branch _ c yes no, h => by
    have hc := Covers.expr h c
    have hyes := stmt_covers yes (h.congr (expr_scopes (classAround path) a c))
    exact (hc.after hyes).trans (optionalStmt_covers no hyes.stands)
  | path, seen, a, .loop _ c body, h =>
    (Covers.expr h c).after (stmt_covers body (h.congr (expr_scopes (classAround path) a c)))
  | path, seen, a, .function _ (.mk d params body), h => by
    have hbody := function_reports (.function :: path) (a.introduce d) (.mk d params body)
    refine ⟨((h.introduce_reports d).trans hbody).perm List.perm_append_comm, ?_⟩
    exact (h.introduce d).congr (function_scopes _ _ _ _)
  | path, seen, a, .return span value, h => by
    have hreturn := (Reports.reportIf a (functionAround path == .none) .returnAtTopLevel
      span).trans (.reportIf _ (functionAround path == .initializer && value.isSome)
        .returnValueFromInit span)
    rw [← faultsIn_return] at hreturn
    refine .of_reports h (by simp [stmt]) ?_
    rw [Stmt.sites, faultsAt_cons, faultsAt_sitesIn]
    exact hreturn.trans (optionalExpr_reports (h.hides.congr (by simp)) value)
  | path, seen, a, .classDecl _ d none methods, h => by
    have hmethods := methodDecls_reports (.classBody false :: path)
      ((a.introduce d).push.define thisName) methods
    have hall := (h.introduce_reports d).trans
      ((hmethods.after_quiet (by simp)).then_quiet (pop_errors _))
    refine ⟨hall.perm List.perm_append_comm, (h.introduce d).congr ?_⟩
    rw [stmt, pop_scopes, methodDecls_scopes, define, put_scopes, push_scopes]
    rfl
  | path, seen, a, .classDecl _ d (some parent) methods, h => by
    have hmethods := methodDecls_reports (.classBody true :: path)
      (((superclass a d parent).push.define superName).push.define thisName) methods
    have hall := (h.superclass_reports d parent).trans
      (((hmethods.after_quiet (by simp)).then_quiet (pop_errors _)).then_quiet (pop_errors _))
    refine ⟨hall.perm ?_, (h.introduce d).congr ?_⟩
    · rw [Stmt.sites, faultsAt_append, List.append_assoc]
      exact List.perm_append_comm
    · simp only [stmt, pop_scopes, methodDecls_scopes, define, put_scopes, push_scopes, expr_scopes,
        reportIf_scopes]
      rfl

theorem stmts_covers : ∀ {path : List Enclosure} {seen : Option (List String)} {a : Analysis}
    (ss : List Stmt), Stands path seen a →
    Covers path seen (Stmt.sitesOf path ss) (Stmt.declarationsOf ss) a
      (a.stmts (functionAround path) (classAround path) ss)
  | _, _, a, [], h => .of_reports h rfl (.refl a)
  | _, _, _, s :: ss, h =>
    (stmt_covers s h).trans (stmts_covers ss (stmt_covers s h).stands)

theorem optionalStmt_covers : ∀ {path : List Enclosure} {seen : Option (List String)}
    {a : Analysis} (s : Option Stmt), Stands path seen a →
    Covers path seen (Stmt.optionalSites path s) (Stmt.optionalDeclarations s) a
      (a.optionalStmt (functionAround path) (classAround path) s)
  | _, _, a, none, h => .of_reports h rfl (.refl a)
  | _, _, _, some s, h => stmt_covers s h

theorem function_reports : ∀ (path : List Enclosure) (a : Analysis) (d : FunctionDecl),
    Reports (faultsAt (d.sites path)) a (a.function (functionAround path) (classAround path) d)
  | path, a, .mk d params body => by
    obtain ⟨hparams, hstands⟩ := (Stands.push a path).introduceAll params
    have hbody := (stmts_covers body hstands).reports
    have hall := (hparams.after_quiet (push_errors a)).trans (hbody.then_quiet (pop_errors _))
    refine hall.perm ?_
    rw [FunctionDecl.sites, faultsAt_cons]
    show (duplicates (some []) params ++ _).Perm (duplicates (some []) (params ++ _) ++ _)
    rw [duplicates_append, List.append_assoc]
    exact List.perm_append_comm.append_left _

theorem methodDecls_reports : ∀ (path : List Enclosure) (a : Analysis) (ds : List FunctionDecl),
    Reports (faultsAt (FunctionDecl.methodSites path ds)) a (a.methodDecls (classAround path) ds)
  | path, a, [] => .refl a
  | path, a, .mk d params body :: ms => by
    have hmethod := function_reports (.method d.name :: path) a (.mk d params body)
    have hall := hmethod.trans (methodDecls_reports path _ ms)
    rwa [← faultsAt_append] at hall

end

end Analysis

/-- **The analysis reports exactly the faults of a program,** each of them once. A program without a
fault is accepted as it is. -/
theorem analysis_reports_faults (body : List Stmt) :
    (faultsOf body = [] ∧ ∃ depths, Program.ofTrees body = .ok ⟨body, depths⟩) ∨
    (faultsOf body ≠ [] ∧ ∃ errors, Program.ofTrees body = .error (.scoping errors) ∧
      errors.Perm (faultsOf body)) := by
  have hcovers := Analysis.stmts_covers body (.top (a := {}) rfl)
  have herrors : (Analysis.stmts .none .none {} body).errors.Perm (faultsOf body) := by
    have h := hcovers.reports.errors
    rwa [List.append_nil, Analysis.duplicates, List.append_nil] at h
  unfold Program.ofTrees analyze
  by_cases hnone : (Analysis.stmts .none .none {} body).errors = []
  · refine .inl ⟨?_, (Analysis.stmts .none .none {} body).depths, ?_⟩
    · rw [hnone] at herrors
      exact List.nil_perm.mp herrors
    · simp [hnone]
  · refine .inr ⟨?_, (Analysis.stmts .none .none {} body).errors.reverse, ?_, ?_⟩
    · intro hfaults
      rw [hfaults] at herrors
      exact hnone (List.perm_nil.mp herrors)
    · simp [hnone]
    · exact (List.reverse_perm _).trans herrors

/-- A name declared twice and read in its own initializer, and a value returned from `init` in a
class that inherits from itself. -/
example : faultsOf
    [.block ⟨0, 60⟩
      [.var ⟨2, 8⟩ "a" none, .var ⟨9, 19⟩ "a" (some (.variable ⟨0, ⟨17, 18⟩⟩ "a"))],
     .classDecl ⟨61, 99⟩ ⟨"B", ⟨67, 68⟩⟩ (some ⟨⟨1, ⟨71, 72⟩⟩, "B"⟩)
      [.mk ⟨"init", ⟨75, 79⟩⟩ [] [.return ⟨84, 96⟩ (some (.this ⟨2, ⟨91, 95⟩⟩))]]] =
    [⟨.duplicate "a", ⟨9, 19⟩⟩, ⟨.readInOwnInitializer "a", ⟨17, 18⟩⟩,
     ⟨.selfInheritance, ⟨71, 72⟩⟩, ⟨.returnValueFromInit, ⟨84, 96⟩⟩] := by
  decide

end Scope
end ClassScript
