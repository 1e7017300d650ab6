/-
# Fuel under lexical scoping

A run is cut from another one (`Cut`) if it gives the same answer or is out of fuel. Whatever is
made of runs is cut from what is made in the same way of the runs that they are cut from.

Key theorem: `fuel_cut`. More fuel changes no answer.
-/
import ClassScript.Proofs.Lexical.Semantics

namespace ClassScript
namespace Lexical

variable {α β : Type}

/-- The run `r` answers as `r'` does, unless its fuel is spent. -/
def Cut (r r' : Run α) : Prop := ∀ σ, r σ = .exhausted ∨ r σ = r' σ

variable {r r' : Run α}

namespace Cut

theorem refl (r : Run α) : Cut r r := fun _ => .inr rfl

theorem trans {r'' : Run α} (h : Cut r r') (h' : Cut r' r'') : Cut r r'' := by
  intro σ
  rcases h σ with hσ | hσ
  · exact .inl hσ
  · rw [hσ]
    exact h' σ

/-- A run that ends is what it is cut from. -/
theorem eq {σ : State} (h : Cut r r') (hr : r σ ≠ .exhausted) : r σ = r' σ :=
  (h σ).resolve_left hr

/-- **One run after the other.** -/
theorem bind {f f' : α → Run β} (h : Cut r r') (hf : ∀ a, Cut (f a) (f' a)) :
    Cut (r >>= f) (r' >>= f') := by
  intro σ
  show Run.bind r f σ = _ ∨ Run.bind r f σ = Run.bind r' f' σ
  unfold Run.bind
  rcases h σ with hσ | hσ
  · rw [hσ]
    exact .inl rfl
  · rw [hσ]
    cases r' σ with
    | done a σ' => exact hf a σ'
    | failed | stuck | exhausted => exact .inr rfl

theorem located (span : Span) (h : Cut r r') : Cut (r.located span) (r'.located span) := by
  intro σ
  unfold Run.located
  rcases h σ with hσ | hσ
  · rw [hσ]
    exact .inl rfl
  · rw [hσ]
    exact .inr rfl

theorem asCall (h : Cut r r') : Cut r.asCall r'.asCall := by
  intro σ
  unfold Run.asCall
  by_cases hdeep : σ.maxCalls ≤ σ.calls
  · rw [if_pos hdeep, if_pos hdeep]
    exact .inr rfl
  · rw [if_neg hdeep, if_neg hdeep]
    rcases h { σ with calls := σ.calls + 1 } with hσ | hσ
    · rw [hσ]
      exact .inl rfl
    · rw [hσ]
      exact .inr rfl

theorem ite {c : Prop} [Decidable c] {p p' : Run α} (h : Cut r r') (hp : Cut p p') :
    Cut (if c then r else p) (if c then r' else p') := by
  by_cases hc : c
  · rwa [if_pos hc, if_pos hc]
  · rwa [if_neg hc, if_neg hc]

end Cut

section

variable {eval eval' : Env → Expr → Run (Value Env)}
  {call call' : Value Env → List (Value Env) → Run (Value Env)}

theorem each_cut {eval eval' : Expr → Run (Value Env)} (he : ∀ e, Cut (eval e) (eval' e))
    (es : List Expr) : Cut (Run.each eval es) (Run.each eval' es) := by
  induction es with
  | nil => exact .refl _
  | cons e es ih => exact (he e).bind fun _ => ih.bind fun _ => .refl _

theorem sequence_cut {exec exec' : Env → Stmt → Run Flow} (hx : ∀ ρ s, Cut (exec ρ s) (exec' ρ s))
    (ρ : Env) (ss : List Stmt) : Cut (Run.sequence exec ρ ss) (Run.sequence exec' ρ ss) := by
  induction ss generalizing ρ with
  | nil => exact .refl _
  | cons s ss ih =>
    refine (hx ρ s).bind fun flow => ?_
    cases flow with
    | next ρ' => exact ih ρ'
    | returned v => exact .refl _

/-- A loop makes the same rounds, or fewer of them. -/
theorem rounds_cut (ρ : Env) {c c' : Run (Value Env)} {body body' : Run Flow} (hc : Cut c c')
    (hb : Cut body body') : ∀ {n n' : Nat}, n ≤ n' →
    Cut (Run.rounds ρ c body n) (Run.rounds ρ c' body' n')
  | 0, _, _ => fun _ => .inl rfl
  | n + 1, 0, h => by omega
  | n + 1, n' + 1, h => by
    refine hc.bind fun v => .ite (hb.bind fun flow => ?_) (.refl _)
    cases flow with
    | next => exact rounds_cut ρ hc hb (Nat.le_of_succ_le_succ h)
    | returned v => exact .refl _

theorem optional_cut {eval eval' : Expr → Run (Value Env)} (he : ∀ e, Cut (eval e) (eval' e)) :
    ∀ e : Option Expr, Cut (Run.optional eval e) (Run.optional eval' e)
  | none => .refl _
  | some e => he e

theorem superclass_cut {eval eval' : Expr → Run (Value Env)} (he : ∀ e, Cut (eval e) (eval' e)) :
    ∀ u : Option NameUse, Cut (Run.superclass eval u) (Run.superclass eval' u)
  | none => .refl _
  | some u => (he u.expr).bind fun _ => .refl _

/-- **A call is cut from a call,** if its statements are. -/
theorem callStep_cut {exec exec' : Env → Stmt → Run Flow} (hx : ∀ ρ s, Cut (exec ρ s) (exec' ρ s))
    (callee : Value Env) (args : List (Value Env)) :
    Cut (Run.callStep exec callee args) (Run.callStep exec' callee args) := by
  have happly : ∀ c args, Cut (Run.apply exec c args) (Run.apply exec' c args) := fun c args =>
    (Cut.refl _).bind fun ρ => (sequence_cut hx ρ c.decl.body).bind fun _ => .refl _
  have hinvoke : Cut (Run.invoke exec callee args) (Run.invoke exec' callee args) := by
    cases callee with
    | function c => exact happly c args
    | cls c =>
      refine (Cut.refl _).bind fun ident => ?_
      cases c.init? with
      | none => exact .refl _
      | some init => exact (Cut.refl _).bind fun bound => (happly bound args).bind fun _ => .refl _
    | nil | bool | number | text | native | object => exact .refl _
  unfold Run.callStep
  cases callee.arity? with
  | none => exact .refl _
  | some arity => exact .ite (.refl _) hinvoke.asCall

/-- **An expression is cut from itself,** if its parts and calls are. -/
theorem exprStep_cut {eval eval' : Expr → Run (Value Env)} (he : ∀ e, Cut (eval e) (eval' e))
    (hc : ∀ v vs, Cut (call v vs) (call' v vs)) (ρ : Env) (e : Expr) :
    Cut (Run.exprStep eval call ρ e) (Run.exprStep eval' call' ρ e) := by
  refine .located e.span ?_
  cases e with
  | literal | «variable» | this | super => exact .refl _
  | group _ e => exact he e
  | assign _ _ e | unary _ _ e | get _ e => exact (he e).bind fun _ => .refl _
  | binary _ _ l r => exact (he l).bind fun _ => (he r).bind fun _ => .refl _
  | logical _ _ l r => exact (he l).bind fun _ => .ite (.refl _) (he r)
  | call _ callee args => exact (he callee).bind fun v => (each_cut he args).bind fun vs => hc v vs
  | set _ e _ value =>
    refine (he e).bind fun v => ?_
    cases v with
    | object => exact (he value).bind fun _ => .refl _
    | nil | bool | number | text | native | function | cls => exact .refl _

/-- **A statement is cut from itself,** if its expressions and statements are. -/
theorem stmtStep_cut {exec exec' : Bool → Env → Stmt → Run Flow}
    (he : ∀ ρ e, Cut (eval ρ e) (eval' ρ e)) (hx : ∀ inner ρ s, Cut (exec inner ρ s) (exec' inner ρ s))
    {n n' : Nat} (hn : n ≤ n') (inner : Bool) (ρ : Env) (s : Stmt) :
    Cut (Run.stmtStep eval exec n inner ρ s) (Run.stmtStep eval' exec' n' inner ρ s) := by
  refine .located s.span ?_
  cases s with
  | expression _ e | print _ e => exact (he ρ e).bind fun _ => .refl _
  | var _ x init =>
    exact (Cut.refl _).bind fun cell => (optional_cut (he _) init).bind fun _ => .refl _
  | block _ body => exact (sequence_cut (hx true) ρ body).bind fun _ => .refl _
  | branch _ c yes no =>
    refine (he ρ c).bind fun _ => .ite ((hx inner ρ yes).bind fun _ => .refl _) ?_
    cases no with
    | none => exact .refl _
    | some s => exact (hx inner ρ s).bind fun _ => .refl _
  | loop _ c body => exact rounds_cut ρ (he ρ c) (hx inner ρ body) hn
  | function => exact .refl _
  | «return» _ value => exact (optional_cut (he ρ) value).bind fun _ => .refl _
  | classDecl _ _ parent =>
    exact (Cut.refl _).bind fun cell => (superclass_cut (he _) parent).bind fun _ => .refl _

end

/-- **More fuel changes no answer.** -/
theorem fuel_cut : ∀ {f f' : Nat}, f ≤ f' → (∀ ρ e, Cut (eval f ρ e) (eval f' ρ e)) ∧
    (∀ v vs, Cut (call f v vs) (call f' v vs)) ∧
    ∀ inner ρ s, Cut (exec f inner ρ s) (exec f' inner ρ s)
  | 0, _, _ => ⟨fun _ _ _ => .inl rfl, fun _ _ _ => .inl rfl, fun _ _ _ _ => .inl rfl⟩
  | f + 1, 0, h => by omega
  | f + 1, f' + 1, h => by
    have hle : f ≤ f' := by omega
    obtain ⟨he, hc, hx⟩ := fuel_cut hle
    refine ⟨fun ρ e => ?_, fun v vs => ?_, fun inner ρ s => ?_⟩
    · simp only [eval]
      exact exprStep_cut (he ρ) hc ρ e
    · simp only [call]
      exact callStep_cut (hx true) v vs
    · simp only [exec]
      exact stmtStep_cut he hx hle inner ρ s

end Lexical
end ClassScript
