/-
# Expressions under lexical scoping

A node is `At` a frame and an environment if the analysis came to it in a context whose
scopes both of them stand for. There the machine and lexical scoping agree on an
expression, given that they agree on its parts and on calls (`exprStep_agrees`).
-/
import ClassScript.Proofs.Lexical.Agreement

namespace ClassScript
namespace Lexical

open Scope

variable {ps : List Program} {W W' : World} {φ : Nat} {ρ : Env} {c c' : Context} {n n' : Node}
  {m : Machine} {σ : State} {xs : List String}

/-- The analysis of a program that was run came to the node `n` in the context `c`, and the frame
`φ` and the environment `ρ` stand for the scopes of that context. -/
structure At (W : World) (φ : Nat) (ρ : Env) (c : Context) (n : Node) : Prop where
  visited : ∃ p ∈ W.texts, Visits p.body c n
  linked : Linked W φ c.awaiting c.scopes c.declares ρ

namespace At

theorem mono (h : Extends W W') (ha : At W φ ρ c n) : At W' φ ρ c n := by
  obtain ⟨p, hp, hv⟩ := ha.visited
  exact ⟨⟨p, h.texts p hp, hv⟩, ha.linked.mono h⟩

/-- A child that stands in the scopes of its node. -/
theorem child (ha : At W φ ρ c n) (h : (c', n') ∈ c.children n)
    (hl : Linked W φ c'.awaiting c'.scopes c'.declares ρ) : At W φ ρ c' n' := by
  obtain ⟨p, hp, hv⟩ := ha.visited
  exact ⟨⟨p, hp, hv.child h⟩, hl⟩

theorem expr_child {e : Expr} (ha : At W φ ρ c (.expr e)) (h : (c', n') ∈ c.children (.expr e)) :
    At W φ ρ c' n' := by
  obtain ⟨hs, hd, -, haw⟩ := Scope.expr_child h
  refine ha.child h ?_
  rw [hs, hd, haw]
  exact ha.linked

/-- The node is one of a program without faults, and its depths are those of the machine. -/
theorem accepted (hm : Match ps W m σ) (ha : At W φ ρ c n) :
    ∃ Δ, Accepted Δ c n ∧ ∀ id ∈ n.ids, m.depths.find? id = Δ.find? id := by
  obtain ⟨p, hp, hv⟩ := ha.visited
  have hbuilt := hm.built p hp
  refine ⟨p.depths, hv.accepted hbuilt, fun id hid => hm.depths.own p hp id ?_⟩
  exact (Comes.ids hv hbuilt.nodup).2 id hid

theorem depth (hm : Match ps W m σ) {e : Expr} (ha : At W φ ρ c (.expr e)) {id : Nat} {x : String}
    (hr : e.refers = some (id, x)) : m.depths.find? id = depthIn c.scopes x := by
  obtain ⟨Δ, hacc, hdepths⟩ := ha.accepted hm
  have hid : id ∈ e.ids := by
    cases e <;> simp_all [Expr.refers, Expr.ids]
  rw [hdepths id hid, hacc.depth hr]

end At

/-! ### Agreement on parts -/

/-- Expressions are evaluated alike. -/
def EvalAgrees (ps : List Program) (eval : Expr → ClassScript.Run Value)
    (eval' : Env → Expr → Run (Value Env)) : Prop :=
  ∀ {W : World} {m : Machine} {σ : State} {ρ : Env} {c : Context} {e : Expr}, Match ps W m σ →
    At W m.frame ρ c (.expr e) → Agree ps W m.frame [] Alike (eval e m) (eval' ρ e σ)

/-- Values are called alike. -/
def CallAgrees (ps : List Program) (call : Value → List Value → ClassScript.Run Value)
    (call' : Value Env → List (Value Env) → Run (Value Env)) : Prop :=
  ∀ {W : World} {m : Machine} {σ : State} {v : Value} {v' : Value Env} {vs : List Value}
    {vs' : List (Value Env)}, Match ps W m σ → Alike W v v' → List.Forall₂ (Alike W) vs vs' →
    Agree ps W m.frame [] Alike (call v vs m) (call' v' vs' σ)

section

variable {eval : Expr → ClassScript.Run Value} {eval' : Env → Expr → Run (Value Env)}
  {call : Value → List Value → ClassScript.Run Value}
  {call' : Value Env → List (Value Env) → Run (Value Env)}

/-- Expressions in a row. -/
theorem each_agrees (he : EvalAgrees ps eval eval') : ∀ {es : List Expr} {W : World} {m : Machine}
    {σ : State} {c : Context}, Match ps W m σ → At W m.frame ρ c (.exprs es) →
    Agree ps W m.frame [] (fun W' vs vs' => List.Forall₂ (Alike W') vs vs')
      (ClassScript.Run.each eval es m) (Run.each (eval' ρ) es σ)
  | [], _, _, _, _, hm, _ => .pure hm .nil
  | e :: es, W, m, σ, c, hm, ha => by
    have hrest : At W m.frame ρ (c.after (.expr e)) (.exprs es) := by
      refine ha.child (.tail _ (.head _)) ?_
      show Linked W m.frame c.awaiting (c.analysis.expr c.kind e).scopes c.declares ρ
      rw [Analysis.expr_scopes]
      exact ha.linked
    refine (he hm (ha.child (.head _) ha.linked)).bind fun W₁ v v' m₁ σ₁ hg₁ hm₁ hf₁ hv => ?_
    rw [← hf₁]
    have hat : At W₁ m₁.frame ρ (c.after (.expr e)) (.exprs es) := hf₁ ▸ hrest.mono hg₁.toExtends
    refine (each_agrees he hm₁ hat).bind fun W₂ vs vs' m₂ σ₂ hg₂ hm₂ hf₂ hvs => ?_
    rw [← hf₂]
    exact .pure hm₂ (.cons (hv.mono hg₂.toExtends) hvs)

/-- **The machine and lexical scoping agree on an expression,** if they agree on its parts. -/
theorem exprStep_agrees (he : EvalAgrees ps eval eval') (hc : CallAgrees ps call call') :
    EvalAgrees ps (ClassScript.Run.exprStep eval call)
      fun ρ e => Run.exprStep (eval' ρ) call' ρ e := by
  intro W m σ ρ c e hm ha
  refine .located e.span ?_
  obtain ⟨Δ, hacc, -⟩ := ha.accepted hm
  -- a later part stands where it stood, in the world behind the earlier parts
  have hlater : ∀ {c' n'} {W' : World} {m' : Machine}, (c', n') ∈ c.children (.expr e) →
      Grows m.frame [] W W' → m'.frame = m.frame → At W' m'.frame ρ c' n' :=
    fun hmem hg hf => hf ▸ (ha.expr_child hmem).mono hg.toExtends
  cases e with
  | literal mk l => exact .pure hm (literal_alike W l)
  | group mk e => exact he hm (ha.expr_child (.head _))
  | «variable» mk x =>
    obtain ⟨hready, hx⟩ := hacc.variable_ready
    exact readName_agrees hm ha.linked (ha.depth hm rfl) hready hx
  | assign mk x e =>
    have hx : ProperName x := hacc.proper.1
    refine (he hm (ha.expr_child (.head _))).bind
      fun W₁ v v' m₁ σ₁ hg₁ hm₁ hf₁ hv => ?_
    have hdepth : m₁.depths.find? mk.id = depthIn c.scopes x :=
      (ha.mono hg₁.toExtends).depth hm₁ rfl
    have hl : Linked W₁ m₁.frame c.awaiting c.scopes c.declares ρ :=
      hf₁ ▸ ha.linked.mono hg₁.toExtends
    rw [← hf₁]
    refine (writeName_agrees hm₁ hl hdepth hx hv).bind fun W₂ _ _ m₂ σ₂ hg₂ hm₂ hf₂ _ => ?_
    rw [← hf₂]
    exact .pure hm₂ (hv.mono hg₂.toExtends)
  | unary mk op e =>
    refine (he hm (ha.expr_child (.head _))).bind
      fun W₁ v v' m₁ σ₁ hg₁ hm₁ hf₁ hv => ?_
    rw [← hf₁]
    exact ofExcept_agrees hm₁ (hv.unary op)
  | binary mk op l r =>
    refine (he hm (ha.expr_child (.head _))).bind
      fun W₁ v v' m₁ σ₁ hg₁ hm₁ hf₁ hv => ?_
    rw [← hf₁]
    refine (he hm₁ (hlater (.tail _ (.head _)) hg₁ hf₁)).bind
      fun W₂ w w' m₂ σ₂ hg₂ hm₂ hf₂ hw => ?_
    rw [← hf₂]
    exact ofExcept_agrees hm₂ ((hv.mono hg₂.toExtends).binary hw op)
  | logical mk op l r =>
    refine (he hm (ha.expr_child (.head _))).bind
      fun W₁ v v' m₁ σ₁ hg₁ hm₁ hf₁ hv => ?_
    rw [hv.settledBy op, ← hf₁]
    by_cases hop : op.settledBy v = true
    · rw [if_pos hop, if_pos hop]
      exact .pure hm₁ hv
    · rw [if_neg hop, if_neg hop]
      exact he hm₁ (hlater (.tail _ (.head _)) hg₁ hf₁)
  | call mk callee args =>
    refine (he hm (ha.expr_child (.head _))).bind
      fun W₁ v v' m₁ σ₁ hg₁ hm₁ hf₁ hv => ?_
    rw [← hf₁]
    refine (each_agrees he hm₁ (hlater (.tail _ (.head _)) hg₁ hf₁)).bind
      fun W₂ vs vs' m₂ σ₂ hg₂ hm₂ hf₂ hvs => ?_
    rw [← hf₂]
    exact hc hm₂ (hv.mono hg₂.toExtends) hvs
  | get mk e x =>
    refine (he hm (ha.expr_child (.head _))).bind
      fun W₁ v v' m₁ σ₁ hg₁ hm₁ hf₁ hv => ?_
    rw [← hf₁]
    exact readProperty_agrees hm₁ hv x
  | set mk e x value =>
    refine (he hm (ha.expr_child (.tail _ (.head _)))).bind
      fun W₁ v v' m₁ σ₁ hg₁ hm₁ hf₁ hv => ?_
    rw [← hf₁]
    cases hv with
    | nil | bool | number | text | native | function | cls => exact .fail hm₁ _
    | object i _ =>
      refine (he hm₁ (hlater (.head _) hg₁ hf₁)).bind fun W₂ w w' m₂ σ₂ hg₂ hm₂ hf₂ hw => ?_
      rw [← hf₂]
      refine (writeProperty_agrees hm₂ i x hw).bind fun W₃ _ _ m₃ σ₃ hg₃ hm₃ hf₃ _ => ?_
      rw [← hf₃]
      exact .pure hm₃ (hw.mono hg₃.toExtends)
  | this mk =>
    have hkey : ∀ scope ∈ c.scopes, scope.find? thisName ≠ some .declared := fun scope hs =>
      hacc.tidy.keyword scope hs _ fun h => h.1 rfl
    obtain ⟨d, hd⟩ := Option.isSome_iff_exists.mp (hacc.tidy.this hacc.this_inside)
    have hid := ha.depth hm (e := .this mk) rfl
    refine readLocal_agrees hm ha.linked (hid.trans hd) hd hkey fun hx => ?_
    obtain ⟨_, _, heq, -⟩ := hacc.fits _ hx
    cases heq
  | super mk x =>
    obtain ⟨d, hsuper, hthis⟩ := hacc.tidy.super hacc.super_inside
    have hid := ha.depth hm (e := .super mk x) rfl
    have hnone : c.awaiting = none := by
      cases haw : c.awaiting with
      | none => rfl
      | some y =>
        obtain ⟨_, _, heq, -⟩ := hacc.fits _ haw
        cases heq
    exact readSuper_agrees hm (hnone ▸ ha.linked) (hid.trans hsuper) hsuper hthis
      (fun scope hs y hy => hacc.tidy.keyword scope hs y hy) x

end

end Lexical
end ClassScript
