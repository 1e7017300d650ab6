/-
# The analysis of a variant

The analysis of a variant has the same scopes on its stack, with the new name in place of
the old one in those that are marked (`Mirrors`). So it finds each name at the depth at
which it was found (`ScopesMirror.depthIn`), although the name may be another one and
other scopes lie in between, and it finds no fault where there was none.

Key theorem: `analyze_like`. A variant passes the analysis with the same depths.
-/
import ClassScript.Proofs.Variant.Values

namespace ClassScript
namespace Variant

open Scope Variation Analysis

variable {v : Variation} {M : List Bool} {b : Bool}

/-! ### Scopes -/

/-- A scope and its variant. The new name is not in a scope, and the old one not in the variant of
a marked scope. -/
structure ScopeMirrors (v : Variation) (b : Bool) (t t' : NameTable Readiness) : Prop where
  same : ∀ z, (b = true → v.Free z) → t'.find? (v.rename b z) = t.find? z
  fresh : ∀ z, ¬ v.Free z → t.find? z = none
  gone : b = true → ∀ x y, v.change = some (x, y) → t'.find? x = none

/-- Scopes with the marks `M` and their variants. -/
inductive ScopesMirror (v : Variation) :
    List Bool → List (NameTable Readiness) → List (NameTable Readiness) → Prop
  | nil : ScopesMirror v [] [] []
  | cons {b : Bool} {M : List Bool} {t t' : NameTable Readiness} {ts ts' : List (NameTable Readiness)}
    (head : ScopeMirrors v b t t') (tail : ScopesMirror v M ts ts') :
    ScopesMirror v (b :: M) (t :: ts) (t' :: ts')

section

variable {t t' : NameTable Readiness} {ts ts' : List (NameTable Readiness)} {z : String}

theorem ScopeMirrors.empty (v : Variation) (b : Bool) : ScopeMirrors v b .empty .empty :=
  ⟨fun _ _ => rfl, fun _ _ => rfl, fun _ _ _ _ => rfl⟩

theorem ScopeMirrors.put (h : ScopeMirrors v b t t') (hz : v.Free z) (r : Readiness) :
    ScopeMirrors v b (t.put z r) (t'.put (v.rename b z) r) := by
  refine ⟨fun w hw => ?_, fun w hw => ?_, fun hb x y hc => ?_⟩
  · rw [NameTable.find?_put, NameTable.find?_put]
    by_cases hzw : z = w
    · rw [if_pos hzw, if_pos (congrArg _ hzw)]
    · rw [if_neg hzw, if_neg fun heq => hzw (rename_inj (fun _ => hz) hw heq)]
      exact h.same w hw
  · have hne : z ≠ w := fun hzw => hw (hzw ▸ hz)
    rw [NameTable.find?_put_of_ne _ _ hne]
    exact h.fresh w hw
  · have hne : v.rename b z ≠ x := by
      have hzy := hz x y hc
      unfold rename
      rw [hc]
      by_cases hzx : z = x
      · simpa [hb, hzx] using fun heq : y = x => hzy (hzx.trans heq.symm)
      · simp [hzx]
    rw [NameTable.find?_put_of_ne _ _ hne]
    exact h.gone hb x y hc

/-- A name that a scope does not hold is not in its variant, whatever it has become elsewhere. -/
theorem ScopeMirrors.absent (h : ScopeMirrors v b t t') (hz : v.Free z) (hnone : t.find? z = none)
    (elsewhere : Bool) : t'.find? (v.rename elsewhere z) = none := by
  have hsame : t'.find? (v.rename b z) = none := (h.same z fun _ => hz).trans hnone
  cases hc : v.change with
  | none => simpa [rename, hc] using hsame
  | some p =>
    obtain ⟨x, y⟩ := p
    by_cases hzx : z = x
    · subst hzx
      cases elsewhere <;> cases b
      · exact hsame
      · simpa [rename, hc] using h.gone rfl z y hc
      · have hy : ¬ v.Free y := fun hfree => hfree z y hc rfl
        have hfind := (h.same y (by simp)).trans (h.fresh y hy)
        simpa [rename, hc] using hfind
      · exact hsame
    · simpa [rename, hc, hzx] using hsame

/-- **A name is found at the depth at which it was found.** -/
theorem ScopesMirror.depthIn (h : ScopesMirror v M ts ts') (hz : v.Free z) :
    Scope.depthIn ts' (v.rename (target M (Scope.depthIn ts z)) z) = Scope.depthIn ts z := by
  induction h with
  | nil => rfl
  | @cons b M t t' ts ts' head tail ih =>
    rw [depthIn_cons, depthIn_cons]
    cases hfind : t.find? z with
    | some r =>
      have hin : t.contains z = true := by simp [NameTable.contains, hfind]
      have hin' : t'.contains (v.rename b z) = true := by
        simp [NameTable.contains, head.same z fun _ => hz, hfind]
      rw [if_pos hin]
      exact if_pos hin'
    | none =>
      have hout : ¬ t.contains z = true := by simp [NameTable.contains, hfind]
      have htarget : target (b :: M) ((Scope.depthIn ts z).map (· + 1)) =
          target M (Scope.depthIn ts z) := by
        cases Scope.depthIn ts z <;> rfl
      have hout' : ¬ t'.contains (v.rename (target M (Scope.depthIn ts z)) z) = true := by
        simp [NameTable.contains, head.absent hz hfind]
      rw [if_neg hout, htarget, if_neg hout', ih]

end

/-! ### Analyses -/

/-- The analysis of a program and that of its variant. The tables of depths are related by `R`. -/
structure Mirrors (v : Variation) (R : Depths → Depths → Prop) (M : List Bool) (a a' : Analysis) :
    Prop where
  scopes : ScopesMirror v M a.scopes a'.scopes
  depths : R a.depths a'.depths
  errors : a.errors = [] → a'.errors = []

/-- Recording the same depth in both tables keeps them related. -/
def Recording (R : Depths → Depths → Prop) : Prop :=
  ∀ Δ Δ' id depth, R Δ Δ' → R (Δ.record id depth) (Δ'.record id depth)

namespace Mirrors

variable {R : Depths → Depths → Prop} {a a' : Analysis} {z z' : String} {mk mk' : Mark}

theorem reportIf (h : Mirrors v R M a a') {found found' : Bool}
    (hfound : found = false → found' = false) (problem problem' : ScopeProblem) (s s' : Span) :
    Mirrors v R M (a.reportIf found problem s) (a'.reportIf found' problem' s') := by
  cases found with
  | true =>
    have hscopes : (a'.reportIf found' problem' s').scopes = a'.scopes := reportIf_scopes ..
    have hdepths : (a'.reportIf found' problem' s').depths = a'.depths := by cases found' <;> rfl
    exact ⟨hscopes ▸ h.scopes, hdepths ▸ h.depths, fun herr => by cases herr⟩
  | false =>
    rw [hfound rfl]
    exact h

theorem put (h : Mirrors v R M a a') (hz : v.Named .here (M.headD false) z z') (r : Readiness) :
    Mirrors v R M (a.put z r) (a'.put z' r) := by
  obtain ⟨scopes, depths, errors⟩ := a
  obtain ⟨scopes', depths', errors'⟩ := a'
  refine ⟨?_, ?_, ?_⟩
  · cases h.scopes with
    | nil => exact .nil
    | cons head tail =>
      rw [hz.eq]
      exact .cons (head.put (hz.free (.inl rfl)) r) tail
  · cases h.scopes <;> exact h.depths
  · cases h.scopes <;> exact h.errors

theorem push (h : Mirrors v R M a a') (b : Bool) : Mirrors v R (b :: M) a.push a'.push :=
  ⟨.cons (.empty v b) h.scopes, h.depths, h.errors⟩

theorem pop (h : Mirrors v R (b :: M) a a') : Mirrors v R M a.pop a'.pop := by
  obtain ⟨scopes, depths, errors⟩ := a
  obtain ⟨scopes', depths', errors'⟩ := a'
  cases h.scopes with
  | cons head tail => exact ⟨tail, h.depths, h.errors⟩

/-- What a name of the innermost scope is like is the same, for a declaration. -/
theorem innermost?_declared (h : Mirrors v R M a a') (hz : v.Named .here (M.headD false) z z') :
    a'.innermost? z' = a.innermost? z := by
  obtain ⟨scopes, depths, errors⟩ := a
  obtain ⟨scopes', depths', errors'⟩ := a'
  unfold innermost?
  cases h.scopes with
  | nil => rfl
  | cons head tail =>
    rw [hz.eq]
    exact head.same z fun _ => hz.free (.inl rfl)

/-- And it is so for a reference. -/
theorem innermost?_referred (h : Mirrors v R M a a')
    (hz : v.Named .here (target M (depthIn a.scopes z)) z z') :
    a'.innermost? z' = a.innermost? z := by
  have hfree := hz.free (.inl rfl)
  obtain ⟨scopes, depths, errors⟩ := a
  obtain ⟨scopes', depths', errors'⟩ := a'
  unfold innermost?
  cases h.scopes with
  | nil => rfl
  | @cons b M t t' ts ts' head tail =>
    dsimp only
    rw [hz.eq]
    cases hfind : t.find? z with
    | none => exact head.absent hfree hfind _
    | some r =>
      have hin : t.contains z = true := by simp [NameTable.contains, hfind]
      rw [depthIn_cons, if_pos hin]
      exact (head.same z fun _ => hfree).trans hfind

theorem declare (h : Mirrors v R M a a') (hz : v.Named .here (M.headD false) z z') (s s' : Span) :
    Mirrors v R M (a.declare z s) (a'.declare z' s') := by
  unfold Analysis.declare
  rw [h.innermost?_declared hz]
  exact (h.reportIf (fun hfound => hfound) _ _ s s').put hz .declared

theorem define (h : Mirrors v R M a a') (hz : v.Named .here (M.headD false) z z') :
    Mirrors v R M (a.define z) (a'.define z') := h.put hz .defined

theorem introduce (h : Mirrors v R M a a') {d d' : Declared}
    (hd : v.Named .here (M.headD false) d.name d'.name) :
    Mirrors v R M (a.introduce d) (a'.introduce d') :=
  (h.declare hd d.span d'.span).define hd

theorem introduceAll {params params' : List Declared}
    (hp : List.Forall₂ (v.Declares .here b) params params') : ∀ {a a' : Analysis},
    Mirrors v R (b :: M) a a' →
    Mirrors v R (b :: M) (params.foldl Analysis.introduce a) (params'.foldl Analysis.introduce a') := by
  induction hp with
  | nil => exact fun h => h
  | cons hd _ ih => exact fun h => ih (h.introduce hd.name)

/-- **A reference is recorded with the same depth.** -/
theorem refer (hR : Recording R) (h : Mirrors v R M a a') (hid : mk'.id = mk.id)
    (hz : v.Named .here (target M (depthIn a.scopes z)) z z') :
    Mirrors v R M (a.refer mk.id z) (a'.refer mk'.id z') := by
  have hdepth : depthIn a'.scopes z' = depthIn a.scopes z := by
    rw [hz.eq]
    exact h.scopes.depthIn (hz.free (.inl rfl))
  unfold Analysis.refer depth?
  change a'.scopes.findIdx? (·.contains z') = a.scopes.findIdx? (·.contains z) at hdepth
  rw [hid, hdepth]
  cases a.scopes.findIdx? (·.contains z) with
  | none => exact h
  | some d => exact ⟨h.scopes, hR _ _ mk.id d h.depths, h.errors⟩

/-- A scope that holds a keyword only. -/
theorem keyword (h : Mirrors v R M a a') {x : String} (hx : ¬ ProperName x) :
    Mirrors v R (false :: M) (a.push.define x) (a'.push.define x) :=
  (h.push false).define (named_keyword hx)

end Mirrors

/-! ### Nodes -/

/-- **The analysis of a node and that of its variant do the same,** where the program is free of
faults. -/
theorem visit_mirrors {R : Depths → Depths → Prop} (hR : Recording R) {n n' : Node}
    (hlike : Like v .here M n n') : ∀ {c : Context} {a' : Analysis}, Accepted v.depths c n →
    Mirrors v R M c.analysis a' →
    Mirrors v R M (c.visit n) (Context.visit { c with analysis := a' } n') := by
  -- the depth by which a reference was compared is the one that the analysis is about to find
  have hrefers : ∀ {c : Context} {M mk mk' z z'} {e : Expr}, Accepted v.depths c (.expr e) →
      e.refers = some (mk.id, z) → v.Refers .here M mk mk' z z' →
      v.Named .here (target M (depthIn c.scopes z)) z z' := by
    intro c M mk mk' z z' e hacc he hr
    have hname := hr.name
    rwa [hacc.depth he] at hname
  induction hlike with
  | literal => exact fun _ h => h
  | group _ _ ih | unary _ _ ih | get _ _ ih => exact fun hacc h => ih (hacc.child (.head _)) h
  | «variable» hr =>
    intro c a' hacc h
    have hz := hrefers hacc rfl hr
    refine (h.reportIf (fun hfound => ?_) _ _ _ _).refer hR hr.id ?_
    · rw [h.innermost?_referred hz]
      exact hfound
    · rw [reportIf_scopes]
      exact hz
  | assign hr _ ih =>
    intro c a' hacc h
    refine (ih (hacc.child (.head _)) h).refer hR hr.id ?_
    rw [expr_scopes]
    exact hrefers hacc rfl hr
  | binary _ _ _ ihl ihr | logical _ _ _ ihl ihr | call _ _ _ ihl ihr | set _ _ _ ihr ihl
  | exprs _ _ ihl ihr | branch _ _ _ ihl ihr | loop _ _ _ ihl ihr | stmts _ _ ihl ihr =>
    intro c a' hacc h
    exact ihr (hacc.child (.tail _ (.head _))) (ihl (hacc.child (.head _)) h)
  | this hm _ =>
    intro c a' hacc h
    have hin := hacc.this_inside
    simp only [Context.visit, Analysis.expr, if_neg hin]
    exact h.refer hR hm.id (named_keyword this_not_proper)
  | super hm _ =>
    intro c a' hacc h
    have hin := hacc.super_inside
    simp only [Context.visit, Analysis.expr, hin, superFault?]
    exact h.refer hR hm.id (named_keyword super_not_proper)
  | noExprs | noStmts | noMethods => exact fun _ h => h
  | expression _ _ ih | print _ _ ih => exact fun hacc h => ih (hacc.child (.head _)) h
  | var _ hz => exact fun hacc h => (h.declare hz _ _).define hz
  | varInit _ hz _ ih =>
    exact fun hacc h => (ih (hacc.child (.head _)) (h.declare hz _ _)).define hz
  | block b _ _ ih => exact fun hacc h => (ih (hacc.child (.head _)) (h.push b)).pop
  | branchElse _ _ _ _ ihc ihy ihn =>
    intro c a' hacc h
    exact ihn (hacc.child (.tail _ (.tail _ (.head _))))
      (ihy (hacc.child (.tail _ (.head _))) (ihc (hacc.child (.head _)) h))
  | @function _ _ _ d d' _ hz _ ih =>
    intro c a' hacc h
    obtain ⟨d, params, body⟩ := d
    obtain ⟨d', params', body'⟩ := d'
    exact ih (hacc.child (.head _)) (h.introduce hz)
  | «return» =>
    intro c a' _ h
    exact (h.reportIf (fun hf => hf) _ _ _ _).reportIf (fun hf => hf) _ _ _ _
  | returnValue _ _ ih =>
    intro c a' hacc h
    exact ih (hacc.child (.head _))
      ((h.reportIf (fun hf => hf) _ _ _ _).reportIf (fun hf => hf) _ _ _ _)
  | classDecl _ hd _ _ ih =>
    intro c a' hacc h
    exact (ih (hacc.child (.head _)) ((h.introduce hd.name).keyword this_not_proper)).pop
  | @derived _ _ _ d d' u u' _ _ _ hd hname hu _ ihu ihm =>
    intro c a' hacc h
    -- the superclass is another name than that of the class, also when it has the new one
    have hself : (u.name == d.name) = false → (u'.name == d'.name) = false := by
      intro hne
      rw [beq_eq_false_iff_ne] at hne ⊢
      rw [hname]
      cases hu with
      | «variable» hr =>
        have hfree := hd.name.free (.inl rfl)
        rw [hr.name.eq]
        unfold rename
        cases hc : v.change with
        | none => exact hne
        | some p =>
          dsimp only
          split
          · exact (hfree _ _ hc).symm
          · exact hne
    have hparent := ihu (hacc.child (.head _)) ((h.introduce hd.name).reportIf hself
      .selfInheritance .selfInheritance u.mark.span u'.mark.span)
    have hmethods := ihm (hacc.child (.tail _ (.head _)))
      ((hparent.keyword super_not_proper).keyword this_not_proper)
    exact hmethods.pop.pop
  | code b _ _ hparams _ ih =>
    exact fun hacc h => (ih (hacc.child (.head _)) (.introduceAll hparams (h.push b))).pop
  | @methods _ d d' _ _ hd _ ihd ihds =>
    intro c a' hacc h
    have hname : d'.name = d.name := by
      cases hd with
      | code b hname => exact hname
    obtain ⟨d, params, body⟩ := d
    obtain ⟨d', params', body'⟩ := d'
    have hfirst := ihd (hacc.child (.head _)) h
    have hrest := ihds (hacc.child (.tail _ (.head _))) hfirst
    change d'.name = d.name at hname
    show Mirrors v R _ _ (methodDecls c.kind
      (Analysis.function (methodKind d'.name) c.kind a' (.mk d' params' body')) _)
    rw [hname]
    exact hrest

/-- **A variant of a program passes the analysis with the same depths.** -/
theorem analyze_like {p : Program} (hp : p.Built)
    (hv : ∀ id ∈ Stmt.idsOf p.body, v.depths.find? id = p.depths.find? id) {body' : List Stmt}
    (hlike : Like v .here [] (.stmts p.body) (.stmts body')) : analyze body' = .ok p.depths := by
  have hacc := accepted_start hp
  have hacc : Accepted v.depths {} (.stmts p.body) :=
    ⟨hacc.errors, fun id hid => (hv id hid).trans (hacc.depths id hid), hacc.unrecorded, hacc.nodup,
      hacc.proper, hacc.tidy, hacc.fits⟩
  have hR : Recording Eq := fun Δ Δ' id d h => by rw [h]
  have h := visit_mirrors hR hlike hacc ⟨.nil, rfl, fun herr => herr⟩
  obtain ⟨herrors, hdepths⟩ := built_analysis hp
  unfold analyze
  have hnone : (Analysis.stmts .none .none {} body').errors = [] := h.errors herrors
  have hsame : (Analysis.stmts .none .none {} body').depths = p.depths :=
    Eq.trans (Eq.symm h.depths) hdepths
  simp only [hnone, hsame, List.isEmpty_nil, if_true]

end Variant
end ClassScript
