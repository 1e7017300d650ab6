/-
# Statements under lexical scoping

The machine and lexical scoping agree on a statement, given that they agree on its
expressions and on the statements in it (`stmtStep_agrees`). From this, by induction on the
fuel, they agree on all expressions, calls and statements (`all_agree`).
-/
import ClassScript.Proofs.Lexical.Declarations

namespace ClassScript
namespace Lexical

open Scope Scope.Analysis

variable {ps : List Program} {W W' : World} {φ : Nat} {ρ : Env} {c c' : Context} {m : Machine}
  {σ : State} {xs : List String}

/-- A statement that declares nothing leaves the environment as it is. -/
theorem behind_same {s : Stmt} (hm : Match ps W m σ) (ha : At W φ ρ c (.stmt s))
    (hexact : Exact W φ c.scopes) (hs : s.declares = none) (hg : Grows φ [] W W') :
    Behind φ (c.after (.stmt s)) W' ρ := by
  have hscopes : (c.after (.stmt s)).scopes = c.scopes := by
    rw [ha.after_scopes hm, hs]
    rfl
  have hlt := ha.linked.instances.lt_size hm.store.nonempty
  unfold Behind
  rw [hscopes]
  exact ⟨ha.linked.mono hg.toExtends, hexact.mono hlt hg⟩

/-- A declaration leaves the environment with its name. -/
theorem behind_declared {s : Stmt} {x : String} (hm : Match ps W m σ) (ha : At W φ ρ c (.stmt s))
    (hs : s.declares = some x) {ρ' : Env}
    (hl : Linked W' φ none (settled c.scopes (some x)) c.declares ρ' ∧
      Exact W' φ (settled c.scopes (some x))) : Behind φ (c.after (.stmt s)) W' ρ' := by
  obtain ⟨Δ, hacc, -⟩ := ha.accepted hm
  have hnone : (c.after (.stmt s)).awaiting = none := hacc.fits.1
  unfold Behind
  rw [ha.after_scopes hm, hs, hnone]
  exact hl

/-- Names that are declared inside of a statement are not in sight behind it. -/
theorem outside_agrees {K K' : World → Env → Prop} {r : ClassScript.Answer ClassScript.Flow}
    {R : Run Flow} (h : Agree ps W φ xs (FlowsAlike K) r (R σ))
    (hK : ∀ W', Grows φ xs W W' → K' W' ρ) :
    Agree ps W φ xs (FlowsAlike K') r ((R >>= fun flow => pure (flow.outside ρ)) σ) := by
  show Agree ps W φ xs (FlowsAlike K') r (Run.bind R (fun flow => Run.pure (flow.outside ρ)) σ)
  unfold Run.bind
  generalize R σ = y at h
  cases h with
  | exhausted => exact .exhausted
  | failed grows hm frame => exact .failed grows hm frame
  | done grows hm frame hflow =>
    refine .done grows hm frame ?_
    cases hflow with
    | next _ => exact .next (hK _ grows)
    | returned hv => exact .returned hv

section

variable {eval : Expr → ClassScript.Run Value} {eval' : Env → Expr → Run (Value Env)}
  {exec : Stmt → ClassScript.Run ClassScript.Flow} {exec' : Bool → Env → Stmt → Run Flow}

theorem optional_agrees (he : EvalAgrees ps eval eval') (hm : Match ps W m σ) {e : Option Expr}
    (ha : ∀ e' ∈ e, ∃ c, At W m.frame ρ c (.expr e')) :
    Agree ps W m.frame [] Alike (ClassScript.Run.optional eval e m)
      (Run.optional (eval' ρ) e σ) := by
  cases e with
  | none => exact .pure hm .nil
  | some e =>
    obtain ⟨c, ha⟩ := ha e rfl
    exact he hm ha

/-- **Each round of a loop agrees.** -/
theorem rounds_agrees (he : EvalAgrees ps eval eval') (hx : ExecAgrees ps exec exec') {e : Expr}
    {body : Stmt} (hbody : body.declares = none) : ∀ (n : Nat) {W : World} {m : Machine} {σ : State},
    Match ps W m σ → At W m.frame ρ c (.expr e) → At W m.frame ρ c' (.stmt body) →
    Exact W m.frame c'.scopes →
    Agree ps W m.frame [] (FlowsAlike fun _ ρ' => ρ' = ρ)
      (ClassScript.Run.rounds (eval e) (exec body) n m)
      (Run.rounds ρ (eval' ρ e) (exec' (!c'.scopes.isEmpty) ρ body) n σ)
  | 0, _, _, _, _, _, _, _ => .exhausted
  | n + 1, W, m, σ, hm, hcond, hat, hexact => by
    refine (he hm hcond).bind fun W₁ v v' m₁ σ₁ hg₁ hm₁ hf₁ hv => ?_
    have hlt := hat.linked.instances.lt_size hm.store.nonempty
    have hat₁ : At W₁ m₁.frame ρ c' (.stmt body) := hf₁ ▸ hat.mono hg₁.toExtends
    have hexact₁ : Exact W₁ m₁.frame c'.scopes := hf₁ ▸ hexact.mono hlt hg₁
    rw [hv.isTrue, ← hf₁]
    by_cases htrue : v.isTrue = true
    · rw [if_pos htrue, if_pos htrue]
      have hrun := hx hm₁ hat₁ hexact₁
      rw [hbody] at hrun
      refine hrun.bind fun W₂ flow flow' m₂ σ₂ hg₂ hm₂ hf₂ hflow => ?_
      rw [← hf₂]
      cases hflow with
      | returned hv => exact .pure hm₂ (.returned hv)
      | next _ =>
        have hg := (hf₁ ▸ hg₂ : Grows m.frame [] W₁ W₂)
        have hlt₁ := hat₁.linked.instances.lt_size hm₁.store.nonempty
        exact rounds_agrees he hx hbody n hm₂
          (hf₂.trans hf₁ ▸ hcond.mono (hg₁.trans hg).toExtends) (hf₂ ▸ hat₁.mono hg₂.toExtends)
          (hf₂ ▸ hexact₁.mono hlt₁ hg₂)
    · rw [if_neg htrue, if_neg htrue]
      exact .pure hm₁ (.next rfl)

variable {limit : Nat}

/-! ### Blocks and branches -/

/-- A block runs alike, in a new frame that has no names yet. -/
theorem block_agrees (hx : ExecAgrees ps exec exec') (hm : Match ps W m σ) {sp : Span}
    {body : List Stmt} (ha : At W m.frame ρ c (.stmt (.block sp body))) (hexact : Exact W m.frame c.scopes) :
    Agree ps W m.frame [] (FlowsAlike (Behind m.frame (c.after (.stmt (.block sp body)))))
      (ClassScript.Run.stmtStep eval exec limit (.block sp body) m)
      (Run.stmtStep eval' exec' limit (!c.scopes.isEmpty) ρ (.block sp body) σ) := by
  obtain ⟨Δ, hacc, -⟩ := ha.accepted hm
  obtain ⟨p, hp, hv⟩ := ha.visited
  have hl := ha.linked
  rw [hacc.fits.1] at hl
  have hempty : ∀ x, (NameTable.empty : NameTable Readiness).contains x = true ↔
      x ∈ ([] : List (String × Value)).map Prod.fst := by simp
  obtain ⟨W₁, ρ₁, σ₁, hrun, hg, hm₁, ho, hnone⟩ := hm.enter (.nil : EntriesAlike W [] []) ρ
    (declaredBy body) (hl.instances.lt_size hm.store.nonempty) hempty (by simp) (by simp) (by simp)
  cases hrun
  rw [← hm.store.size] at ho hnone
  have hat : At W₁ m.store.frames.size ρ (c.inside c.analysis.push (declaredBy body))
      (.stmts body) := by
    refine ⟨⟨p, (hg 0 []).texts p hp, hv.child (.head _)⟩, ?_⟩
    show Linked W₁ _ c.awaiting _ _ ρ
    rw [hacc.fits.1]
    exact (hl.mono (hg 0 []).toExtends).open_scope ho
  have hinside : Exact W₁ m.store.frames.size
      (c.inside c.analysis.push (declaredBy body)).scopes := by
    rintro _ ⟨rfl⟩
    exact hnone
  have hbody := body_agrees hx hm₁ (hg m.frame []) (Nat.le_of_eq hm.store.size.symm) hat hinside rfl
  refine .located sp ?_
  dsimp only
  have hnew : ClassScript.Run.newFrame m.frame {} m =
      .done m.store.frames.size { m with store := (m.store.newFrame (some m.frame) {}).2 } := rfl
  rw [machine_bind_done (rfl : ClassScript.Run.currentFrame m = .done m.frame m),
    machine_bind_done hnew]
  exact outside_agrees hbody fun W' hg' => behind_same hm ha hexact rfl hg'

/-- A statement that declares nothing, inside of another one that stands in the same scopes. -/
theorem part_agrees (hx : ExecAgrees ps exec exec') (hm : Match ps W m σ) {t : Stmt} {k : Context}
    (hat : At W m.frame ρ k (.stmt t)) (hk : k.scopes = c.scopes) (hexact : Exact W m.frame c.scopes)
    (ht : t.declares = none) {K : World → Env → Prop} (hK : ∀ W', Grows m.frame [] W W' → K W' ρ) :
    Agree ps W m.frame [] (FlowsAlike K) (exec t m)
      ((exec' (!c.scopes.isEmpty) ρ t >>= fun flow => pure (flow.outside ρ)) σ) := by
  have hrun := hx hm hat (hk ▸ hexact)
  rw [ht, hk] at hrun
  exact outside_agrees hrun hK

/-- Both branches run alike, where the condition is alike. -/
theorem branch_agrees (he : EvalAgrees ps eval eval') (hx : ExecAgrees ps exec exec')
    (hm : Match ps W m σ) {sp : Span} {e : Expr} {yes : Stmt} {no : Option Stmt}
    (ha : At W m.frame ρ c (.stmt (.branch sp e yes no))) (hexact : Exact W m.frame c.scopes) :
    Agree ps W m.frame [] (FlowsAlike (Behind m.frame (c.after (.stmt (.branch sp e yes no)))))
      (ClassScript.Run.stmtStep eval exec limit (.branch sp e yes no) m)
      (Run.stmtStep eval' exec' limit (!c.scopes.isEmpty) ρ (.branch sp e yes no) σ) := by
  obtain ⟨Δ, hacc, -⟩ := ha.accepted hm
  obtain ⟨-, ⟨hyes, hproper⟩, hno⟩ := hacc.proper
  have hlt := ha.linked.instances.lt_size hm.store.nonempty
  refine .located sp ?_
  have hcond : (c, .expr e) ∈ c.children (.stmt (.branch sp e yes no)) := by
    cases no <;> exact .head _
  have hafter : (c.after (.expr e)).scopes = c.scopes := expr_scopes _ _ _
  have hbefore : ((c.after (.expr e)).after (.stmt yes)).scopes = c.scopes := by
    have h := stmt_scopes c.function c.kind (c.after (.expr e)).analysis yes hproper
    rw [hyes] at h
    exact h.trans hafter
  refine (he hm (ha.child hcond ha.linked)).bind fun W₁ v v' m₁ σ₁ hg₁ hm₁ hf₁ hv => ?_
  have hexact₁ : Exact W₁ m₁.frame c.scopes := hf₁ ▸ hexact.mono hlt hg₁
  have hbehind : ∀ W', Grows m₁.frame [] W₁ W' →
      Behind m.frame (c.after (.stmt (.branch sp e yes no))) W' ρ := fun W' hg' =>
    behind_same hm ha hexact rfl (hg₁.trans (hf₁ ▸ hg'))
  -- a branch stands in the scopes of the whole
  have hbranch : ∀ {k t}, (k, .stmt t) ∈ c.children (.stmt (.branch sp e yes no)) →
      k.scopes = c.scopes → k.declares = c.declares → k.awaiting = c.awaiting →
      At W₁ m₁.frame ρ k (.stmt t) := by
    intro k t hmem hs hd haw
    have hat := ha.child hmem (by rw [hs, hd, haw]; exact ha.linked)
    exact hf₁ ▸ hat.mono hg₁.toExtends
  rw [hv.isTrue, ← hf₁]
  by_cases htrue : v.isTrue = true
  · rw [if_pos htrue, if_pos htrue]
    have hmem : (c.after (.expr e), .stmt yes) ∈ c.children (.stmt (.branch sp e yes no)) := by
      cases no <;> exact .tail _ (.head _)
    exact part_agrees hx hm₁ (hbranch hmem hafter rfl rfl) hafter hexact₁ hyes (hf₁ ▸ hbehind)
  · rw [if_neg htrue, if_neg htrue]
    cases no with
    | none => exact .pure hm₁ (.next (hf₁ ▸ hbehind W₁ (.refl _ _ _)))
    | some t =>
      exact part_agrees hx hm₁ (hbranch (.tail _ (.tail _ (.head _))) hbefore rfl rfl) hbefore
        hexact₁ hno.1 (hf₁ ▸ hbehind)

/-! ### Declarations -/

/-- A variable is declared alike: its initializer already sees the new cell. -/
theorem var_agrees (he : EvalAgrees ps eval eval') (hm : Match ps W m σ) {sp : Span} {x : String}
    {init : Option Expr} (ha : At W m.frame ρ c (.stmt (.var sp x init)))
    (hexact : Exact W m.frame c.scopes) :
    Agree ps W m.frame [x] (FlowsAlike (Behind m.frame (c.after (.stmt (.var sp x init)))))
      (ClassScript.Run.stmtStep eval exec limit (.var sp x init) m)
      (Run.stmtStep eval' exec' limit (!c.scopes.isEmpty) ρ (.var sp x init) σ) := by
  obtain ⟨Δ, hacc, -⟩ := ha.accepted hm
  obtain ⟨W₁, cell, σ₁, hrun, hg₁, hm₁, hd⟩ := declare_agrees hm ha hexact rfl
  refine .located sp ?_
  dsimp only
  rw [Run.bind_done hrun]
  refine Agree.before hg₁ (Agree.mono (List.nil_subset _) ?_)
  have hinit : ∀ e ∈ init, ∃ c', At W₁ m.frame (Run.extended ρ x cell) c' (.expr e) := by
    rintro e ⟨rfl⟩
    obtain ⟨p, hp, hv⟩ := ha.visited
    refine ⟨_, ⟨p, hg₁.texts p hp, hv.child (.head _)⟩, ?_⟩
    show Linked W₁ m.frame c.awaiting (c.analysis.declare x sp).scopes c.declares _
    rw [declare_scopes, put_scopes, hacc.fits.1]
    exact hd.initializer
  refine (optional_agrees he hm₁ hinit).bind fun W₂ v v' m₂ σ₂ hg₂ hm₂ hf₂ hv => ?_
  refine (settle_agrees hm₂ hf₂ (hd.mono hm₁ hg₂) hacc.proper.1
    fun W' hg' _ => hv.mono hg'.toExtends).bind fun W₃ _ _ m₃ σ₃ hg₃ hm₃ hf₃ hl => ?_
  rw [← hf₃]
  exact .pure hm₃ (.next (hf₃ ▸ behind_declared hm ha rfl hl))

/-- A function is declared alike: it sees its own name. -/
theorem function_agrees (hm : Match ps W m σ) {sp : Span} {d : FunctionDecl}
    (ha : At W m.frame ρ c (.stmt (.function sp d))) (hexact : Exact W m.frame c.scopes) :
    Agree ps W m.frame [d.name] (FlowsAlike (Behind m.frame (c.after (.stmt (.function sp d)))))
      (ClassScript.Run.stmtStep eval exec limit (.function sp d) m)
      (Run.stmtStep eval' exec' limit (!c.scopes.isEmpty) ρ (.function sp d) σ) := by
  obtain ⟨Δ, hacc, -⟩ := ha.accepted hm
  obtain ⟨W₁, cell, σ₁, hrun, hg₁, hm₁, hd⟩ := declare_agrees hm ha hexact rfl
  obtain ⟨p, hp, hv⟩ := ha.visited
  have hident : Run.newIdent σ₁ = .done σ₁.idents { σ₁ with idents := σ₁.idents + 1 } := rfl
  have hclosure : ClassScript.Run.closure m.frame d false m =
      .done ⟨m.store.idents, d, m.frame, false⟩ { m with store := m.store.newIdent.2 } := rfl
  refine .located sp ?_
  dsimp only
  rw [machine_bind_done (rfl : ClassScript.Run.currentFrame m = .done m.frame m),
    machine_bind_done hclosure, Run.bind_done hrun, Run.bind_done hident]
  refine Agree.before hg₁ (Agree.mono (List.nil_subset _) ?_)
  have hm₂ : Match ps W₁ { m with store := m.store.newIdent.2 } { σ₁ with idents := σ₁.idents + 1 } :=
    hm₁.withStore rfl hm₁.store.ident rfl rfl rfl rfl rfl
  have hvalue : ∀ W', Grows m.frame [] W₁ W' →
      Linked W' m.frame none (settled c.scopes (some d.name)) c.declares
        (Run.extended ρ d.name cell) →
      Alike W' (.function ⟨m.store.idents, d, m.frame, false⟩)
        (.function ⟨σ₁.idents, d, Run.extended ρ d.name cell, false⟩) := by
    intro W' hg' hl
    refine .function ⟨hm₁.store.idents, rfl, rfl, p, hg'.texts p (hg₁.texts p hp), _, _, _,
      hv.child (.head _), ⟨rfl, rfl, fun h => by cases h⟩, ?_⟩
    show Linked W' m.frame none (c.analysis.introduce d.declared).scopes c.declares _
    rw [introduce_scopes]
    exact hl
  refine (settle_agrees hm₂ rfl hd (proper_declares hacc.proper _ rfl) hvalue).bind
    fun W₃ _ _ m₃ σ₃ hg₃ hm₃ hf₃ hl => ?_
  rw [← hf₃]
  exact .pure hm₃ (.next (hf₃ ▸ behind_declared hm ha rfl hl))

/-- A superclass is a class on both sides, or on none. -/
theorem superclass_agrees (he : EvalAgrees ps eval eval') (hm : Match ps W m σ) {u : NameUse}
    (ha : At W m.frame ρ c (.expr u.expr)) :
    Agree ps W m.frame []
      (fun W' q q' => ∃ k k', q = some k ∧ q' = some k' ∧ ClassesAlike W' k k')
      (ClassScript.Run.superclass eval (some u) m) (Run.superclass (eval' ρ) (some u) σ) := by
  refine (he hm ha).bind fun W₁ v v' m₁ σ₁ hg₁ hm₁ hf₁ hv => ?_
  rw [← hf₁]
  cases hv with
  | nil | bool | number | text | native | function | object =>
    exact .located u.mark.span (.fail hm₁ _)
  | cls hk => exact .pure hm₁ ⟨_, _, rfl, rfl, hk⟩

/-- A class is declared alike: its superclass is evaluated where the class has a cell already. -/
theorem class_agrees (he : EvalAgrees ps eval eval') (hm : Match ps W m σ) {sp : Span}
    {name : Declared} {parent : Option NameUse} {ds : List FunctionDecl}
    (ha : At W m.frame ρ c (.stmt (.classDecl sp name parent ds)))
    (hexact : Exact W m.frame c.scopes) :
    Agree ps W m.frame [name.name]
      (FlowsAlike (Behind m.frame (c.after (.stmt (.classDecl sp name parent ds)))))
      (ClassScript.Run.stmtStep eval exec limit (.classDecl sp name parent ds) m)
      (Run.stmtStep eval' exec' limit (!c.scopes.isEmpty) ρ (.classDecl sp name parent ds) σ) := by
  obtain ⟨Δ, hacc, -⟩ := ha.accepted hm
  obtain ⟨W₁, cell, σ₁, hrun, hg₁, hm₁, hd⟩ := declare_agrees hm ha hexact rfl
  obtain ⟨p, hp, hv⟩ := ha.visited
  have hx : ProperName name.name := hacc.proper.1
  refine .located sp ?_
  dsimp only
  rw [Run.bind_done hrun]
  refine Agree.before hg₁ (Agree.mono (List.nil_subset _) ?_)
  cases parent with
  | none =>
    have hscopes := baseClass_scopes c name
    rw [machine_bind_done (rfl : ClassScript.Run.superclass eval none m = .done none m),
      Run.bind_done (rfl : Run.superclass _ none σ₁ = .done none σ₁)]
    refine (settleBase_agrees hm₁ hd hx (hg₁.texts p hp) (hv.child (.head _)) hscopes rfl).bind
      fun W₃ _ _ m₃ σ₃ hg₃ hm₃ hf₃ hl => ?_
    rw [← hf₃]
    exact .pure hm₃ (.next (hf₃ ▸ behind_declared hm ha rfl hl))
  | some u =>
    have hat : At W₁ m.frame (Run.extended ρ name.name cell) (c.superclass name u)
        (.expr u.expr) := by
      refine ⟨⟨p, hg₁.texts p hp, hv.child (.head _)⟩, ?_⟩
      rw [superclass_scopes]
      exact hd.linked
    refine (superclass_agrees he hm₁ hat).bind fun W₂ q q' m₂ σ₂ hg₂ hm₂ hf₂ hq => ?_
    obtain ⟨k, k', rfl, rfl, hk⟩ := hq
    have hd₂ : Pending W₂ m₂.frame c name.name cell (Run.extended ρ name.name cell) :=
      hf₂ ▸ hd.mono hm₁ hg₂
    have hp₂ := hg₂.texts p (hg₁.texts p hp)
    have hsettle := settleDerived_agrees hm₂ hd₂ hx hp₂ (hv.child (.tail _ (.head _)))
      (derivedClass_scopes c name u) rfl hk
    rw [hf₂] at hsettle
    refine hsettle.bind fun W₃ _ _ m₃ σ₃ hg₃ hm₃ hf₃ hl => ?_
    rw [← hf₃]
    exact .pure hm₃ (.next (hf₃ ▸ behind_declared hm ha rfl hl))

/-- **The machine and lexical scoping agree on a statement,** if they agree on its parts. -/
theorem stmtStep_agrees (he : EvalAgrees ps eval eval') (hx : ExecAgrees ps exec exec')
    (limit : Nat) :
    ExecAgrees ps (ClassScript.Run.stmtStep eval exec limit) (Run.stmtStep eval' exec' limit) := by
  intro W m σ ρ c s hm ha hexact
  obtain ⟨Δ, hacc, -⟩ := ha.accepted hm
  have hlink := ha.linked
  have hnone : c.awaiting = none := hacc.fits.1
  have hlt := hlink.instances.lt_size hm.store.nonempty
  -- the expression that a statement starts with stands in the scopes of the statement
  have hfirst : ∀ {e}, (c, .expr e) ∈ c.children (.stmt s) → At W m.frame ρ c (.expr e) :=
    fun hmem => ha.child hmem hlink
  cases s with
  | expression sp e =>
    refine .located sp ?_
    refine (he hm (hfirst (.head _))).bind fun W₁ v v' m₁ σ₁ hg₁ hm₁ hf₁ _ => ?_
    rw [← hf₁]
    exact .pure hm₁ (.next (hf₁ ▸ behind_same hm ha hexact rfl hg₁))
  | print sp e =>
    refine .located sp ?_
    refine (he hm (hfirst (.head _))).bind fun W₁ v v' m₁ σ₁ hg₁ hm₁ hf₁ hv => ?_
    rw [hv.display]
    have hprint : Agree ps W₁ m₁.frame [] _ _ _ := printLine_agrees hm₁ v.display
    rw [hf₁] at hprint
    refine hprint.bind fun W₂ _ _ m₂ σ₂ hg₂ hm₂ hf₂ _ => ?_
    rw [← hf₂]
    exact .pure hm₂ (.next (hf₂ ▸ behind_same hm ha hexact rfl (hg₁.trans hg₂)))
  | var sp x init => exact var_agrees he hm ha hexact
  | block sp body => exact block_agrees hx hm ha hexact
  | branch sp e yes no => exact branch_agrees he hx hm ha hexact
  | loop sp e body =>
    obtain ⟨-, hbody, -⟩ := hacc.proper
    have hafter : (c.after (.expr e)).scopes = c.scopes := expr_scopes _ _ _
    have hat : At W m.frame ρ (c.after (.expr e)) (.stmt body) :=
      ha.child (.tail _ (.head _)) (hafter ▸ hlink)
    have hrounds := rounds_agrees he hx hbody limit hm (hfirst (.head _)) hat (hafter ▸ hexact)
    rw [hafter] at hrounds
    refine .located sp (hrounds.imp fun W' flow flow' hg' hflow => ?_)
    cases hflow with
    | returned hv => exact .returned hv
    | next hρ => exact .next (hρ ▸ behind_same hm ha hexact rfl hg')
  | function sp d => exact function_agrees hm ha hexact
  | «return» sp value =>
    refine .located sp ?_
    have hvalue : ∀ e ∈ value, ∃ c', At W m.frame ρ c' (.expr e) := by
      rintro e ⟨rfl⟩
      refine ⟨_, ha.child (.head _) ?_⟩
      show Linked W m.frame c.awaiting (reportIf _ _ _ _).scopes c.declares ρ
      rw [reportIf_scopes, reportIf_scopes]
      exact hlink
    refine (optional_agrees he hm hvalue).bind fun W₁ v v' m₁ σ₁ hg₁ hm₁ hf₁ hv => ?_
    rw [← hf₁]
    exact .pure hm₁ (.returned hv)
  | classDecl sp name parent ds => exact class_agrees he hm ha hexact

end

/-! ### All of a run -/

/-- **The machine and lexical scoping agree,** whatever the fuel. -/
theorem all_agree (f : Nat) : EvalAgrees ps (ClassScript.eval f) (eval f) ∧
    CallAgrees ps (ClassScript.call f) (call f) ∧ ExecAgrees ps (ClassScript.exec f) (exec f) := by
  induction f with
  | zero => exact ⟨fun _ _ => .exhausted, fun _ _ _ => .exhausted, fun _ _ _ => .exhausted⟩
  | succ f ih =>
    obtain ⟨he, hc, hx⟩ := ih
    refine ⟨?_, ?_, ?_⟩
    · intro W m σ ρ c e hm ha
      simp only [ClassScript.eval, staged_eq]
      exact exprStep_agrees he hc hm ha
    · intro W m σ v v' vs vs' hm hv hvs
      simp only [ClassScript.call, staged_eq]
      exact callStep_agrees hx hm hv hvs
    · intro W m σ ρ c s hm ha hexact
      simp only [ClassScript.exec, staged_eq]
      exact stmtStep_agrees he hx f hm ha hexact

end Lexical
end ClassScript
