/-
# Calls under lexical scoping

The machine and lexical scoping agree on statements in a row and on a call, given that they
agree on each statement (`sequence_agrees`, `callStep_agrees`). A statement leaves an
environment for the statements behind it: it stands for the scopes that the analysis had
there (`Behind`).

That a name which is declared has no cell yet in its frame is part of the invariant
(`Exact`): it has one only if it stands in the innermost scope, and no scope declares a
name twice.
-/
import ClassScript.Proofs.Lexical.Expressions

namespace ClassScript
namespace Lexical

open Scope

variable {ps : List Program} {W W' : World} {φ : Nat} {ρ : Env} {c c' : Context} {n n' : Node}
  {m : Machine} {σ : State} {xs : List String}

/-- The frame has cells for names of the innermost scope only. -/
def Exact (W : World) (φ : Nat) (scopes : List (NameTable Readiness)) : Prop :=
  ∀ scope ∈ scopes.head?, ∀ x, ¬ scope.contains x = true → W.place φ x = none

theorem Exact.mono {scopes : List (NameTable Readiness)} (hφ : φ < W.size) (hg : Grows φ [] W W')
    (h : Exact W φ scopes) : Exact W' φ scopes := by
  intro scope hs x hx
  rw [hg.place φ hφ x (by simp)]
  exact h scope hs x hx

/-- What the environment behind a statement is like. -/
def Behind (φ : Nat) (c : Context) (W : World) (ρ : Env) : Prop :=
  Linked W φ c.awaiting c.scopes c.declares ρ ∧ Exact W φ c.scopes

/-- Statements that end alike. `K` says what the environment for the next one is like. -/
inductive FlowsAlike (K : World → Env → Prop) (W : World) : ClassScript.Flow → Flow → Prop
  | next {ρ : Env} (h : K W ρ) : FlowsAlike K W .next (.next ρ)
  | returned {v : Value} {v' : Value Env} (h : Alike W v v') :
    FlowsAlike K W (.returned v) (.returned v')

/-- Statements are run alike. -/
def ExecAgrees (ps : List Program) (exec : Stmt → ClassScript.Run ClassScript.Flow)
    (exec' : Bool → Env → Stmt → Run Flow) : Prop :=
  ∀ {W : World} {m : Machine} {σ : State} {ρ : Env} {c : Context} {s : Stmt}, Match ps W m σ →
    At W m.frame ρ c (.stmt s) → Exact W m.frame c.scopes →
    Agree ps W m.frame s.declares.toList (FlowsAlike (Behind m.frame (c.after (.stmt s))))
      (exec s m) (exec' (!c.scopes.isEmpty) ρ s σ)

section

variable {exec : Stmt → ClassScript.Run ClassScript.Flow} {exec' : Bool → Env → Stmt → Run Flow}

/-- The scopes behind a statement that stands where the analysis found no fault. -/
theorem At.after_scopes {s : Stmt} (hm : Match ps W m σ) (ha : At W φ ρ c (.stmt s)) :
    (c.after (.stmt s)).scopes = Analysis.settled c.scopes s.declares := by
  obtain ⟨Δ, hacc, -⟩ := ha.accepted hm
  exact Analysis.stmt_scopes c.function c.kind c.analysis s hacc.proper

theorem isEmpty_settled (scopes : List (NameTable Readiness)) (x : Option String) :
    (Analysis.settled scopes x).isEmpty = scopes.isEmpty := by
  cases x <;> cases scopes <;> rfl

/-- **Statements in a row:** each one in the environment behind the one before it. -/
theorem sequence_agrees (hx : ExecAgrees ps exec exec') : ∀ {ss : List Stmt} {W : World}
    {m : Machine} {σ : State} {ρ : Env} {c : Context}, Match ps W m σ → At W m.frame ρ c (.stmts ss) →
    Exact W m.frame c.scopes →
    Agree ps W m.frame (declaredBy ss) (FlowsAlike fun _ _ => True)
      (ClassScript.Run.sequence exec ss m) (Run.sequence (exec' (!c.scopes.isEmpty)) ρ ss σ)
  | [], _, _, _, _, _, hm, _, _ => .pure hm (.next trivial)
  | s :: ss, W, m, σ, ρ, c, hm, ha, hexact => by
    have hs : At W m.frame ρ c (.stmt s) := ha.child (.head _) ha.linked
    have hsub : ∀ x ∈ s.declares.toList, x ∈ declaredBy (s :: ss) := by
      intro x hx
      rw [Option.mem_toList] at hx
      exact List.mem_filterMap.mpr ⟨s, List.mem_cons_self, hx⟩
    refine ((hx hm hs hexact).mono hsub).bind fun W₁ flow flow' m₁ σ₁ hg₁ hm₁ hf₁ hflow => ?_
    rw [← hf₁]
    cases hflow with
    | returned hv => exact .pure hm₁ (.returned hv)
    | next hbehind =>
      rename_i ρ₁
      obtain ⟨p, hp, hv⟩ := ha.visited
      have hrest : At W₁ m₁.frame ρ₁ (c.after (.stmt s)) (.stmts ss) :=
        ⟨⟨p, hg₁.texts p hp, hv.child (.tail _ (.head _))⟩, hf₁ ▸ hbehind.1⟩
      have hin : (!(c.after (.stmt s)).scopes.isEmpty) = !c.scopes.isEmpty := by
        rw [hs.after_scopes hm, isEmpty_settled]
      have hagree := sequence_agrees hx hm₁ hrest (hf₁ ▸ hbehind.2)
      rw [hin] at hagree
      refine hagree.mono fun x hx => ?_
      obtain ⟨s', hmem, hx⟩ := List.mem_filterMap.mp hx
      exact List.mem_filterMap.mpr ⟨s', List.mem_cons_of_mem s hmem, hx⟩

/-! ### Calls -/

/-- A block of statements in a new frame. -/
theorem body_agrees (hx : ExecAgrees ps exec exec') {ss : List Stmt} {k : Context} {ψ : Nat}
    (hm : Match ps W' m σ) (hg : Grows m.frame [] W W') (hψ : W.size ≤ ψ)
    (ha : At W' ψ ρ k (.stmts ss)) (hexact : Exact W' ψ k.scopes) (hk : k.scopes.isEmpty = false) :
    Agree ps W m.frame [] (FlowsAlike fun _ _ => True)
      (ClassScript.Run.inFrame ψ (ClassScript.Run.sequence exec ss) m)
      (Run.sequence (exec' true) ρ ss σ) := by
  have hagree := sequence_agrees hx (hm.inFrame ψ) ha hexact
  rw [hk] at hagree
  exact .inFrame hg hψ hagree

theorem zip_alike {W : World} : ∀ {names : List String} {vs : List Value} {vs' : List (Value Env)},
    List.Forall₂ (Alike W) vs vs' → EntriesAlike W (names.zip vs) (names.zip vs')
  | [], _, _, _ => .nil
  | _ :: _, _, _, .nil => .nil
  | _ :: _, _, _, .cons hv hvs => .cons ⟨rfl, hv⟩ (zip_alike hvs)

/-- The object that a call of an initializer gives. -/
theorem initialized_agrees (hm : Match ps W m σ) {f : Closure} {f' : Closure Env}
    (hf : FunctionsAlike W f f') (hinit : f.isInit = true) :
    ∃ v v', m.store.getAt f.env 0 thisName = .ok v ∧ Run.readLocal f'.env thisName σ = .done v' σ ∧
      Alike W v v' := by
  obtain ⟨p, hp, k, scopes, declares, hv, ⟨rfl, -, hthis⟩, hl⟩ := hf.linked
  have hacc := hv.accepted (hm.built p hp)
  have hd : depthIn k.scopes thisName = some 0 := by
    cases hs : k.scopes with
    | nil =>
      rw [hs] at hthis
      cases hthis hinit
    | cons scope rest =>
      rw [hs] at hthis
      obtain rfl : scope = thisScope := by simpa using hthis hinit
      rw [depthIn_cons, NameTable.contains, thisScope_find?]
      simp
  obtain ⟨v, v', hget, hcell, halike, -⟩ := hm.store.read hl hd
    (fun scope hs => hacc.tidy.keyword scope hs _ fun h => h.1 rfl) (by simp)
  exact ⟨v, v', hget, by rw [Run.readLocal, hcell], halike⟩

/-- The context of the body of a function. -/
def bodyContext (k : Context) (d : FunctionDecl) : Context :=
  k.inside (d.params.foldl Analysis.introduce k.analysis.push)
    (d.params.map Declared.name ++ declaredBy d.body)

theorem body_child (k : Context) (d : FunctionDecl) :
    (bodyContext k d, .stmts d.body) ∈ k.children (.function d) := by
  cases d
  exact .head _

theorem proper_params {d : FunctionDecl} (h : d.Proper) : ∀ q ∈ d.params, ProperName q.name := by
  cases d
  exact h.2.1

/-- **A closure is called alike.** -/
theorem apply_agrees (hx : ExecAgrees ps exec exec') (hm : Match ps W m σ) {f : Closure}
    {f' : Closure Env} (hf : FunctionsAlike W f f') {vs : List Value} {vs' : List (Value Env)}
    (hvs : List.Forall₂ (Alike W) vs vs') (hlen : vs.length = f.arity) :
    Agree ps W m.frame [] Alike (ClassScript.Run.apply exec f vs m)
      (Run.apply (exec' true) f' vs' σ) := by
  obtain ⟨p, hp, k, scopes, declares, hv, ⟨rfl, rfl, -⟩, hl⟩ := hf.linked
  have hacc := hv.accepted (hm.built p hp)
  -- the frame and the environment of the parameters
  obtain ⟨scope, hscope, hfind⟩ := introduceAll_scopes f.decl.params
    (Analysis.push_scopes k.analysis)
  have hkeys : ((f.decl.params.map Declared.name).zip vs).map Prod.fst =
      f.decl.params.map Declared.name := by
    refine List.map_fst_zip ?_
    rw [hlen, List.length_map]
    exact Nat.le_refl _
  have hcontains : ∀ x, scope.contains x = true ↔
      x ∈ ((f.decl.params.map Declared.name).zip vs).map Prod.fst := by
    intro x
    rw [hkeys, NameTable.contains, hfind]
    by_cases hx : x ∈ f.decl.params.map Declared.name <;> simp [hx]
  have hproper : ∀ x v, (x, v) ∈ (f.decl.params.map Declared.name).zip vs → ProperName x := by
    intro x v hmem
    obtain ⟨d, hd, rfl⟩ := List.mem_map.mp (List.of_mem_zip hmem).1
    exact proper_params hacc.proper d hd
  obtain ⟨W₁, ρ₁, σ₁, hrun, hg, hm₁, ho, hnone⟩ := hm.enter (zip_alike hvs) f'.env
    (f.decl.params.map Declared.name ++ declaredBy f.decl.body)
    (hl.instances.lt_size hm.store.nonempty) hcontains
    (fun x hx => List.mem_append_left _ (hkeys ▸ hx))
    (fun v hmem => absurd rfl (hproper _ v hmem).1) (fun v hmem => absurd rfl (hproper _ v hmem).2)
  rw [← hm.store.size] at ho hnone
  have hscopes : (bodyContext k f.decl).scopes = scope :: k.scopes := hscope
  have hat : At W₁ m.store.frames.size ρ₁ (bodyContext k f.decl) (.stmts f.decl.body) := by
    refine ⟨⟨p, (hg 0 []).texts p hp, hv.child (body_child k f.decl)⟩, ?_⟩
    show Linked W₁ _ k.awaiting (bodyContext k f.decl).scopes _ ρ₁
    rw [hscopes, hacc.fits.1]
    exact (hl.mono (hg 0 []).toExtends).open_scope ho
  have hexact : Exact W₁ m.store.frames.size (bodyContext k f.decl).scopes := by
    rw [hscopes]
    rintro _ ⟨rfl⟩
    exact hnone
  have hbody := body_agrees hx hm₁ (hg m.frame []) (Nat.le_of_eq hm.store.size.symm) hat hexact
    (by rw [hscopes]; rfl)
  have hnew : ClassScript.Run.newFrame f.env (ClassScript.Run.parameters f vs) m =
      .done m.store.frames.size { m with store := (m.store.newFrame (some f.env)
        (.ofList ((f.decl.params.map Declared.name).zip vs))).2 } := rfl
  unfold ClassScript.Run.apply Run.apply
  rw [machine_bind_done hnew, hf.decl, hf.isInit, Run.bind_done hrun]
  refine hbody.bind fun W₂ flow flow' m₂ σ₂ hg₂ hm₂ hf₂ hflow => ?_
  change m₂.frame = m.frame at hf₂
  rw [← hf₂]
  cases hinit : f.isInit with
  | true =>
    obtain ⟨v, v', hget, hread, halike⟩ := initialized_agrees hm₂
      (SameCode.mono hg₂.toExtends hf) hinit
    simp only [↓reduceIte, hget, hread]
    exact .done (.refl _ _ _) hm₂ rfl halike
  | false =>
    cases hflow with
    | next => exact .pure hm₂ .nil
    | returned hv => exact .pure hm₂ hv

/-- **A class is called alike.** -/
theorem construct_agrees (hx : ExecAgrees ps exec exec') (hm : Match ps W m σ) {k : Class}
    {k' : Class Env} (hk : ClassesAlike W k k') {vs : List Value} {vs' : List (Value Env)}
    (hvs : List.Forall₂ (Alike W) vs vs') (hlen : vs.length = k.arity) :
    Agree ps W m.frame [] Alike (ClassScript.Run.construct exec k vs m)
      (Run.construct (exec' true) k' vs' σ) := by
  have hnew : ClassScript.Run.onStore Store.newObject m =
      .done m.store.objects.size { m with store := m.store.newObject.2 } := rfl
  have hnew' : Run.newObject σ =
      .done σ.objects.size { σ with objects := σ.objects.push {} } := rfl
  have hm₁ : Match ps W { m with store := m.store.newObject.2 }
      { σ with objects := σ.objects.push {} } :=
    hm.withStore rfl hm.store.object rfl rfl rfl rfl rfl
  have hinit := hk.method? initName
  unfold ClassScript.Run.construct Run.construct
  rw [machine_bind_done hnew, Run.bind_done hnew', hm.store.objects]
  unfold Class.arity Class.init? at hlen
  unfold Class.init?
  generalize k.method? initName = o at hinit hlen
  generalize k'.method? initName = o' at hinit
  cases hinit with
  | none => exact .pure hm₁ (.object _ hk)
  | some hmth =>
    rename_i f f'
    obtain ⟨W₁, bound, σ₁, hbind, hg, hm₂, hb⟩ := bindThis_agrees hm₁ hmth hk
    have hbound : ClassScript.Run.onStore (fun s => s.bind f (.object m.store.objects.size k))
        { m with store := m.store.newObject.2 } =
        .done (m.store.newObject.2.bind f (.object m.store.objects.size k)).1
          { m with store := (m.store.newObject.2.bind f (.object m.store.objects.size k)).2 } := rfl
    dsimp only
    rw [machine_bind_done hbound, Run.bind_done hbind]
    have hcall := apply_agrees hx hm₂ hb (hvs.imp fun _ _ hv => hv.mono (hg 0 []).toExtends) hlen
    refine (hcall.before (hg _ _)).bind fun W₂ _ _ m₃ σ₃ hg₃ hm₃ hf₃ _ => ?_
    rw [← hf₃]
    exact .pure hm₃ (.object _ (hk.mono hg₃.toExtends))

/-- A value that can be called is called alike. -/
theorem invoke_agrees (hx : ExecAgrees ps exec exec') (hm : Match ps W m σ) {v : Value}
    {v' : Value Env} (hv : Alike W v v') {vs : List Value} {vs' : List (Value Env)}
    (hvs : List.Forall₂ (Alike W) vs vs') (hlen : v.arity? = some vs.length) :
    Agree ps W m.frame [] Alike (ClassScript.Run.invoke exec v vs m)
      (Run.invoke (exec' true) v' vs' σ) := by
  have hkind := hv.kind
  cases hv with
  | nil | bool | number | text | object => exact .fail hm _
  | native n => exact native_agrees hm n hvs (Option.some.inj hlen).symm
  | function hf => exact apply_agrees hx hm hf hvs (Option.some.inj hlen).symm
  | cls hk => exact construct_agrees hx hm hk hvs (Option.some.inj hlen).symm

/-- **The machine and lexical scoping agree on a call,** if they agree on statements. -/
theorem callStep_agrees (hx : ExecAgrees ps exec exec') :
    CallAgrees ps (ClassScript.Run.callStep exec) (Run.callStep (exec' true)) := by
  intro W m σ v v' vs vs' hm hv hvs
  unfold ClassScript.Run.callStep Run.callStep
  rw [hv.arity?, hv.kind, hv.display, ← hvs.length_eq]
  cases harity : v.arity? with
  | none => exact .fail hm _
  | some arity =>
    dsimp only
    by_cases hlen : vs.length = arity
    · rw [if_neg (not_not_intro hlen), if_neg (not_not_intro hlen)]
      refine .asCall hm fun hm₁ => ?_
      exact invoke_agrees hx hm₁ hv hvs (harity.trans (congrArg some hlen.symm))
    · rw [if_pos hlen, if_pos hlen]
      exact .fail hm _

end

end Lexical
end ClassScript
